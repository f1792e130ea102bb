import VueSfc.Glob.Pattern

/-!
# What glob patterns match

A pattern stands for the byte strings that it can take whole, which is said here without a
continuation: patterns one after another take a string that falls into their shares. A pattern
accepts a string in front of a continuation just when the string begins with one that the pattern
takes and the continuation accepts what is left.
-/

namespace VueSfc.Glob

/-! ## Ends of strings -/

/-- Some end of a string is accepted. -/
theorem someTail_iff {accept : List UInt8 → Bool} {s : List UInt8} :
    someTail accept s = true ↔ ∃ front rest, s = front ++ rest ∧ accept rest = true := by
  induction s with
  | nil =>
    constructor
    · intro h
      exact ⟨[], [], rfl, h⟩
    · rintro ⟨front, rest, hs, ha⟩
      rwa [(List.append_eq_nil_iff.1 hs.symm).2] at ha
  | cons b s ih =>
    rw [someTail, Bool.or_eq_true, ih]
    constructor
    · rintro (ha | ⟨front, rest, rfl, ha⟩)
      · exact ⟨[], b :: s, rfl, ha⟩
      · exact ⟨b :: front, rest, rfl, ha⟩
    · rintro ⟨front, rest, hs, ha⟩
      cases front with
      | nil =>
        rw [List.nil_append] at hs
        exact .inl (hs ▸ ha)
      | cons a front =>
        rw [List.cons_append, List.cons.injEq] at hs
        exact .inr ⟨front, rest, hs.2, ha⟩

/-- What follows some slash of a string is accepted. -/
theorem someAfterSlash_iff {accept : List UInt8 → Bool} {s : List UInt8} :
    someAfterSlash accept s = true ↔
      ∃ front rest, s = front ++ slash :: rest ∧ accept rest = true := by
  induction s with
  | nil => simp [someAfterSlash]
  | cons b s ih =>
    rw [someAfterSlash, Bool.or_eq_true, ih, Bool.and_eq_true, beq_iff_eq]
    constructor
    · rintro (⟨rfl, ha⟩ | ⟨front, rest, rfl, ha⟩)
      · exact ⟨[], s, rfl, ha⟩
      · exact ⟨b :: front, rest, rfl, ha⟩
    · rintro ⟨front, rest, hs, ha⟩
      cases front with
      | nil =>
        rw [List.nil_append, List.cons.injEq] at hs
        exact .inl ⟨hs.1, hs.2 ▸ ha⟩
      | cons a front =>
        rw [List.cons_append, List.cons.injEq] at hs
        exact .inr ⟨front, rest, hs.2, ha⟩

/-- The first byte passes a test and what follows it is accepted. -/
theorem firstByte_iff {test : UInt8 → Bool} {accept : List UInt8 → Bool} {s : List UInt8} :
    firstByte test accept s = true ↔
      ∃ b rest, s = b :: rest ∧ test b = true ∧ accept rest = true := by
  cases s with
  | nil => simp [firstByte]
  | cons b s =>
    rw [firstByte, Bool.and_eq_true]
    constructor
    · rintro ⟨hb, ha⟩
      exact ⟨b, s, rfl, hb, ha⟩
    · rintro ⟨b, rest, hs, hb, ha⟩
      obtain ⟨rfl, rfl⟩ := List.cons.inj hs
      exact ⟨hb, ha⟩

/-! ## Strings taken whole -/

namespace Pattern

/-- The pattern takes the whole string. -/
def Takes : Pattern → List UInt8 → Prop
  | nothing, s => s = []
  | byte b, s => s = [b]
  | anyByte, s => ∃ b, s = [b]
  | anyBytes, _ => True
  | oneOf negated ranges, s => ∃ b, s = [b] ∧ inRanges ranges b ≠ negated
  | leadingDirs, s => s = [] ∨ ∃ dirs, s = dirs ++ [slash]
  | innerDirs, s => s = [slash] ∨ ∃ dirs, s = slash :: dirs ++ [slash]
  | trailingDirs, s => ∃ below, s = slash :: below
  | seq p q, s => ∃ first second, s = first ++ second ∧ p.Takes first ∧ q.Takes second
  | either p q, s => p.Takes s ∨ q.Takes s

/-- A pattern takes a front part of the string, and what is left is accepted. -/
theorem accepts_iff {p : Pattern} {accept : List UInt8 → Bool} {s : List UInt8} :
    p.accepts accept s = true ↔ ∃ front rest, s = front ++ rest ∧ p.Takes front ∧
      accept rest = true := by
  induction p generalizing accept s with
  | nothing =>
    rw [accepts]
    constructor
    · intro ha
      exact ⟨[], s, rfl, rfl, ha⟩
    · rintro ⟨front, rest, rfl, rfl, ha⟩
      exact ha
  | byte b =>
    rw [accepts, firstByte_iff]
    simp only [beq_iff_eq]
    constructor
    · rintro ⟨b, rest, rfl, rfl, ha⟩
      exact ⟨[b], rest, rfl, rfl, ha⟩
    · rintro ⟨front, rest, rfl, rfl, ha⟩
      exact ⟨b, rest, rfl, rfl, ha⟩
  | anyByte =>
    rw [accepts, firstByte_iff]
    constructor
    · rintro ⟨b, rest, rfl, -, ha⟩
      exact ⟨[b], rest, rfl, ⟨b, rfl⟩, ha⟩
    · rintro ⟨front, rest, rfl, ⟨b, rfl⟩, ha⟩
      exact ⟨b, rest, rfl, rfl, ha⟩
  | anyBytes =>
    rw [accepts, someTail_iff]
    simp only [Takes, true_and]
  | oneOf negated ranges =>
    rw [accepts, firstByte_iff]
    simp only [bne_iff_ne]
    constructor
    · rintro ⟨b, rest, rfl, hb, ha⟩
      exact ⟨[b], rest, rfl, ⟨b, rfl, hb⟩, ha⟩
    · rintro ⟨front, rest, rfl, ⟨b, rfl, hb⟩, ha⟩
      exact ⟨b, rest, rfl, hb, ha⟩
  | leadingDirs =>
    rw [accepts, Bool.or_eq_true, someAfterSlash_iff]
    constructor
    · rintro (ha | ⟨dirs, rest, rfl, ha⟩)
      · exact ⟨[], s, rfl, .inl rfl, ha⟩
      · exact ⟨dirs ++ [slash], rest, by simp, .inr ⟨dirs, rfl⟩, ha⟩
    · rintro ⟨front, rest, rfl, rfl | ⟨dirs, rfl⟩, ha⟩
      · exact .inl ha
      · exact .inr ⟨dirs, rest, by simp, ha⟩
  | innerDirs =>
    rw [accepts, firstByte_iff]
    simp only [beq_iff_eq, Bool.or_eq_true, someAfterSlash_iff]
    constructor
    · rintro ⟨b, rest, rfl, rfl, ha | ⟨dirs, rest, rfl, ha⟩⟩
      · exact ⟨[slash], rest, rfl, .inl rfl, ha⟩
      · exact ⟨slash :: dirs ++ [slash], rest, by simp, .inr ⟨dirs, rfl⟩, ha⟩
    · rintro ⟨front, rest, rfl, rfl | ⟨dirs, rfl⟩, ha⟩
      · exact ⟨slash, rest, rfl, rfl, .inl ha⟩
      · exact ⟨slash, dirs ++ slash :: rest, by simp, rfl, .inr ⟨dirs, rest, rfl, ha⟩⟩
  | trailingDirs =>
    rw [accepts, firstByte_iff]
    simp only [beq_iff_eq, someTail_iff]
    constructor
    · rintro ⟨b, rest, rfl, rfl, below, rest, rfl, ha⟩
      exact ⟨slash :: below, rest, rfl, ⟨below, rfl⟩, ha⟩
    · rintro ⟨front, rest, rfl, ⟨below, rfl⟩, ha⟩
      exact ⟨slash, below ++ rest, rfl, rfl, below, rest, rfl, ha⟩
  | seq p q ihp ihq =>
    rw [accepts, ihp]
    constructor
    · rintro ⟨first, rest, rfl, hp, ha⟩
      obtain ⟨second, rest, rfl, hq, ha⟩ := ihq.1 ha
      exact ⟨first ++ second, rest, by simp, ⟨first, second, rfl, hp, hq⟩, ha⟩
    · rintro ⟨front, rest, rfl, ⟨first, second, rfl, hp, hq⟩, ha⟩
      exact ⟨first, second ++ rest, by simp, hp, ihq.2 ⟨second, rest, rfl, hq, ha⟩⟩
  | either p q ihp ihq =>
    rw [accepts, Bool.or_eq_true, ihp, ihq]
    constructor
    · rintro (⟨front, rest, hs, hp, ha⟩ | ⟨front, rest, hs, hq, ha⟩)
      · exact ⟨front, rest, hs, .inl hp, ha⟩
      · exact ⟨front, rest, hs, .inr hq, ha⟩
    · rintro ⟨front, rest, hs, hp | hq, ha⟩
      · exact .inl ⟨front, rest, hs, hp, ha⟩
      · exact .inr ⟨front, rest, hs, hq, ha⟩

/-- A pattern matches the strings that it takes whole. -/
theorem isMatch_iff {p : Pattern} {s : List UInt8} : p.isMatch s = true ↔ p.Takes s := by
  rw [isMatch, accepts_iff]
  constructor
  · rintro ⟨front, rest, rfl, hp, hr⟩
    rwa [List.isEmpty_iff.1 hr, List.append_nil]
  · intro hp
    exact ⟨s, [], (List.append_nil s).symm, hp, rfl⟩

end Pattern

end VueSfc.Glob
