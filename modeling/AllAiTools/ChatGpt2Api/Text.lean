import AllAiTools.Foundation.Pieces

namespace AllAiTools.ChatGpt2Api.Text

/-- A `str` by its characters. -/
abbrev Str := List Char

/-- White space as `str.isspace` counts it. -/
def isSpace (c : Char) : Bool :=
  c.toNat ∈ [0x09, 0x0A, 0x0B, 0x0C, 0x0D, 0x1C, 0x1D, 0x1E, 0x1F, 0x20, 0x85, 0xA0, 0x1680, 0x2028,
    0x2029, 0x202F, 0x205F, 0x3000] || (0x2000 ≤ c.toNat && c.toNat ≤ 0x200A)

def lstrip (s : Str) : Str := s.dropWhile isSpace

def rstrip (s : Str) : Str := s.rdropWhile isSpace

def strip (s : Str) : Str := rstrip (lstrip s)

/-- `str.lower` on the letters of ASCII. -/
def lower (s : Str) : Str := s.map Char.toLower

/-- `str.startswith`. -/
def startsWith (s pre : Str) : Bool := pre.isPrefixOf s

theorem strip_strip (s : Str) : strip (strip s) = strip s :=
  Foundation.Pieces.strip_strip isSpace s

/-- A text with something in it and no white space at its ends. -/
abbrev Word := {s : Str // s ≠ [] ∧ strip s = s}

/-- The word in a text. -/
def word? (s : Str) : Option Word :=
  if h : strip s ≠ [] then some ⟨strip s, h, strip_strip s⟩ else none

@[simp] theorem word?_val (w : Word) : word? w.val = some w := by
  obtain ⟨s, hne, hstrip⟩ := w
  simp [word?, hstrip, hne]

@[simp] theorem word?_nil : word? [] = none := rfl

theorem word?_eq_some {s : Str} {w : Word} (h : word? s = some w) : w.val = strip s := by
  rw [word?] at h
  by_cases hne : strip s ≠ []
  · rw [dif_pos hne] at h
    exact congrArg Subtype.val (Option.some.inj h).symm
  · rw [dif_neg hne] at h
    cases h

theorem startsWith_iff {s pre : Str} : startsWith s pre = true ↔ pre <+: s :=
  List.isPrefixOf_iff_prefix

end AllAiTools.ChatGpt2Api.Text
