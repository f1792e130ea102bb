import VueSfc.Text.Basic

/-!
# Searching in a text

A search cuts a text in two at the leftmost place that passes a test. Places are
also measured in bytes of the UTF-8 form, for callers that speak of offsets.
-/

namespace VueSfc.Text

/-- Cut a text before its leftmost suffix that passes the test. -/
def cutBefore? (test : Text → Bool) : Text → Option (Text × Text)
  | [] => if test [] then some ([], []) else none
  | c :: r =>
    if test (c :: r) then some ([], c :: r)
    else (cutBefore? test r).map fun (front, back) => (c :: front, back)

/-- Cut a text after its first occurrence of a character. -/
def cutAfter? (c : Char) : Text → Option (Text × Text)
  | [] => none
  | d :: r =>
    if d = c then some ([d], r)
    else (cutAfter? c r).map fun (front, back) => (d :: front, back)

/-- The two parts of a cut before a suffix make up the text. -/
theorem append_of_cutBefore? {test : Text → Bool} {text front back : Text}
    (h : cutBefore? test text = some (front, back)) : text = front ++ back := by
  induction text generalizing front with
  | nil => simp_all [cutBefore?]
  | cons c r ih =>
    simp only [cutBefore?] at h
    split at h
    · simp only [Option.some.injEq, Prod.mk.injEq] at h
      obtain ⟨rfl, rfl⟩ := h
      rfl
    · obtain ⟨⟨f, b⟩, hf, he⟩ := Option.map_eq_some_iff.1 h
      simp only [Prod.mk.injEq] at he
      simp [ih (he.2 ▸ hf), ← he.1]

/-- The suffix found passes the test. -/
theorem test_of_cutBefore? {test : Text → Bool} {text front back : Text}
    (h : cutBefore? test text = some (front, back)) : test back = true := by
  induction text generalizing front with
  | nil => simp_all [cutBefore?]
  | cons c r ih =>
    simp only [cutBefore?] at h
    split at h
    · simp_all
    · obtain ⟨⟨f, b⟩, hf, he⟩ := Option.map_eq_some_iff.1 h
      simp only [Prod.mk.injEq] at he
      exact ih (he.2 ▸ hf)

/-- The two parts of a cut after a character make up the text. -/
theorem append_of_cutAfter? {c : Char} {text front back : Text}
    (h : cutAfter? c text = some (front, back)) : text = front ++ back := by
  induction text generalizing front with
  | nil => simp [cutAfter?] at h
  | cons d r ih =>
    simp only [cutAfter?] at h
    split at h
    · simp only [Option.some.injEq, Prod.mk.injEq] at h
      obtain ⟨rfl, rfl⟩ := h
      rfl
    · obtain ⟨⟨f, b⟩, hf, he⟩ := Option.map_eq_some_iff.1 h
      simp only [Prod.mk.injEq] at he
      simp [ih (he.2 ▸ hf), ← he.1]

/-- The number of bytes of a text in UTF-8. -/
def byteSize : Text → Nat
  | [] => 0
  | c :: r => c.utf8Size + byteSize r

/-- Cut a text at the first boundary between characters that is at least the given number of
bytes from its start, if the text is that long. -/
def cutAtByte? : Nat → Text → Option (Text × Text)
  | 0, text => some ([], text)
  | _ + 1, [] => none
  | n + 1, c :: r =>
    (cutAtByte? (n + 1 - c.utf8Size) r).map fun (front, back) => (c :: front, back)

/-- The byte offset of the first occurrence of a word at or after an offset, ignoring the case of
ASCII letters. An empty word occurs nowhere. -/
def findFold? (word text : Text) (start : Nat) : Option Nat :=
  if word.isEmpty then none
  else
    (cutAtByte? start text).bind fun (skipped, rest) =>
      (cutBefore? (startsFold word) rest).map fun (front, _) => byteSize skipped + byteSize front

end VueSfc.Text
