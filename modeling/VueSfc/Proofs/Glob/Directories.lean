import VueSfc.FileTree
import VueSfc.Glob.Reading
import VueSfc.Proofs.Glob.Matching
import VueSfc.Proofs.Offset.Bytes
import VueSfc.Proofs.Text.Lines

/-!
# Patterns for directories

The pattern of a directory name takes the paths that lead through a directory of that name. What
stands before and behind the name is any bytes, but they are parted from it by slashes, so in a
path that is put together from parts the name is one of the parts, and not the last one.
-/

namespace VueSfc.Glob

open Text Offset

/-! ## Bytes of paths -/

/-- Only a slash has the byte of a slash. -/
theorem slash_mem_encodeText_iff {text : Text} : slash ∈ encodeText text ↔ '/' ∈ text := by
  have hc (c : Char) : slash ∈ String.utf8EncodeChar c ↔ '/' = c := by
    cases ha : isAscii c with
    | false =>
      constructor
      · intro hm
        exact absurd (le_toNat_of_mem_utf8EncodeChar ha hm) (by decide)
      · rintro rfl
        contradiction
    | true =>
      rw [utf8EncodeChar_of_isAscii ha, List.mem_singleton]
      constructor
      · exact fun h => eq_of_byte_eq (by decide) (of_decide_eq_true ha) h
      · rintro rfl
        rfl
  simp only [encodeText, List.mem_flatMap, hc, exists_eq_right']

/-- Texts are told by their bytes. -/
theorem encodeText_injective : Function.Injective encodeText := by
  intro a b h
  have hd := congrArg decodeText? h
  rw [decodeText?_encodeText, decodeText?_encodeText] at hd
  exact Option.some.inj hd

/-- The bytes of names joined by slashes are the bytes of the names joined by slashes. -/
theorem encodeText_joinWith (names : List Text) :
    encodeText (joinWith ['/'] names) = [slash].intercalate (names.map encodeText) := by
  cases names with
  | nil => rfl
  | cons name names =>
    rw [joinWith, intercalate_singleton_cons, List.map_cons, intercalate_singleton_cons,
      encodeText, List.flatMap_append, List.flatMap_assoc, List.flatMap_map]
    rfl

/-- A part that is not the last one stands between slashes, or at the front and before a slash. -/
theorem exists_of_mem_dropLast {parts : List (List UInt8)} {part : List UInt8}
    (h : part ∈ parts.dropLast) : ∃ front below, (front = [] ∨ ∃ dirs, front = dirs ++ [slash]) ∧
      [slash].intercalate parts = front ++ part ++ slash :: below := by
  have hne : parts ≠ [] := by
    rintro rfl
    exact List.not_mem_nil h
  obtain ⟨before, after, hsplit⟩ := List.append_of_mem h
  refine ⟨before.flatMap (· ++ [slash]), [slash].intercalate (after ++ [parts.getLast hne]), ?_, ?_⟩
  · rcases eq_nil_or_flatMap_concat slash before with rfl | hfront
    · exact .inl rfl
    · exact .inr hfront
  · conv_lhs =>
      rw [← List.dropLast_append_getLast hne, hsplit, List.append_assoc, List.cons_append,
        intercalate_append_cons, List.intercalate_cons_of_ne_nil (by simp)]
    simp

/-- What stands between slashes, or at the front and before a slash, is a part and not the last
one. -/
theorem mem_dropLast_of_intercalate_eq {parts : List (List UInt8)}
    (hp : ∀ part ∈ parts, slash ∉ part) {front part below : List UInt8} (hpart : slash ∉ part)
    (hf : front = [] ∨ ∃ dirs, front = dirs ++ [slash])
    (h : [slash].intercalate parts = front ++ part ++ slash :: below) : part ∈ parts.dropLast := by
  have hne : parts ≠ [] := by
    rintro rfl
    simp at h
  have hparts : parts = (front ++ part).splitOn slash ++ below.splitOn slash := by
    rw [← List.splitOn_append_cons_self, ← h, List.splitOn_intercalate slash hp hne]
  have hmem : part ∈ (front ++ part).splitOn slash := by
    rcases hf with rfl | ⟨dirs, rfl⟩
    · rw [List.nil_append, List.splitOn_eq_singleton hpart]
      exact List.mem_singleton_self part
    · rw [List.append_assoc, List.singleton_append, List.splitOn_append_cons_self,
        List.splitOn_eq_singleton hpart]
      exact List.mem_append_right _ (List.mem_singleton_self part)
  rw [hparts, List.dropLast_append_of_ne_nil (List.splitOn_ne_nil slash below)]
  exact List.mem_append_left _ hmem

/-! ## The pattern of a directory -/

namespace Pattern

/-- A pattern that matches the empty string only can be left out. -/
theorem takes_ofItems_cons {p : Pattern} {ps : List Pattern} {s : List UInt8} :
    (ofItems (p :: ps)).Takes s ↔
      ∃ first rest, s = first ++ rest ∧ p.Takes first ∧ (ofItems ps).Takes rest := by
  rw [ofItems]
  split
  · rename_i hp
    rw [hp]
    constructor
    · intro h
      exact ⟨[], s, rfl, rfl, h⟩
    · rintro ⟨first, rest, rfl, rfl, h⟩
      exact h
  · split
    · rename_i hps
      rw [hps]
      constructor
      · intro h
        exact ⟨s, [], (List.append_nil s).symm, h, rfl⟩
      · rintro ⟨first, rest, rfl, h, rfl⟩
        rwa [List.append_nil]
    · rfl

/-- The bytes of a character are matched one after another. -/
theorem takes_ofChar {c : Char} {s : List UInt8} :
    (ofChar c).Takes s ↔ s = String.utf8EncodeChar c := by
  rw [ofChar]
  induction String.utf8EncodeChar c generalizing s with
  | nil => rfl
  | cons b bytes ih =>
    rw [List.map_cons, takes_ofItems_cons]
    constructor
    · rintro ⟨first, rest, rfl, rfl, h⟩
      rw [ih.1 h, List.singleton_append]
    · rintro rfl
      exact ⟨[b], bytes, rfl, rfl, ih.2 rfl⟩

/-- The characters of a text are matched one after another, and then what follows. -/
theorem takes_ofItems_text {text : Text} {ps : List Pattern} {s : List UInt8} :
    (ofItems (text.map ofChar ++ ps)).Takes s ↔
      ∃ rest, s = encodeText text ++ rest ∧ (ofItems ps).Takes rest := by
  induction text generalizing s with
  | nil => simp [encodeText]
  | cons c text ih =>
    rw [List.map_cons, List.cons_append, takes_ofItems_cons]
    constructor
    · rintro ⟨first, rest, rfl, hc, h⟩
      obtain ⟨rest, rfl, hrest⟩ := ih.1 h
      exact ⟨rest, by rw [takes_ofChar.1 hc, encodeText, encodeText, List.flatMap_cons,
        List.append_assoc], hrest⟩
    · rintro ⟨rest, rfl, hrest⟩
      refine ⟨String.utf8EncodeChar c, encodeText text ++ rest, ?_, takes_ofChar.2 rfl,
        ih.2 ⟨rest, rfl, hrest⟩⟩
      rw [encodeText, encodeText, List.flatMap_cons, List.append_assoc]

/-- Any directories, then a directory of the given name, then anything below it. -/
def directory (name : Text) : Pattern :=
  ofItems (leadingDirs :: (name.map ofChar ++ [trailingDirs]))

/-- The name stands at the front or behind a slash, and a slash stands behind it. -/
theorem takes_directory {name : Text} {s : List UInt8} :
    (directory name).Takes s ↔ ∃ front below, (front = [] ∨ ∃ dirs, front = dirs ++ [slash]) ∧
      s = front ++ encodeText name ++ slash :: below := by
  rw [directory, takes_ofItems_cons]
  constructor
  · rintro ⟨front, rest, rfl, hf, h⟩
    obtain ⟨rest, rfl, below, rfl⟩ := takes_ofItems_text.1 h
    exact ⟨front, below, hf, (List.append_assoc _ _ _).symm⟩
  · rintro ⟨front, below, hf, rfl⟩
    exact ⟨front, encodeText name ++ slash :: below, List.append_assoc _ _ _, hf,
      takes_ofItems_text.2 ⟨_, rfl, below, rfl⟩⟩

/-- The pattern of a directory name matches a path put together from parts just when the name is one
of them and not the last one. -/
theorem isMatch_directory_iff {name : Text} (hn : '/' ∉ name) {parts : List (List UInt8)}
    (hp : ∀ part ∈ parts, slash ∉ part) :
    (directory name).isMatch ([slash].intercalate parts) = true ↔
      encodeText name ∈ parts.dropLast := by
  rw [isMatch_iff, takes_directory]
  constructor
  · rintro ⟨front, below, hf, h⟩
    exact mem_dropLast_of_intercalate_eq hp (mt slash_mem_encodeText_iff.1 hn) hf h
  · exact exists_of_mem_dropLast

end Pattern

end VueSfc.Glob
