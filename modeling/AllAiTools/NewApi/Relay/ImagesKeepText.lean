import AllAiTools.NewApi.Relay.GeminiContent

namespace AllAiTools.NewApi.Relay.ImagesKeepText

open Foundation.Joined (before before_found)
open ParamOverride (Text)
open GeminiContent

section Property

/-- The label of a single image: no image begins in it, and it does not end in it. -/
structure Label (label : Text) : Prop where
  no_image : ¬ imageMark <:+: label
  no_end : ¬ [']', '('] <:+: label

structure DataUrl (dataUrl : Text) : Prop where
  data : "data:".toList <+: dataUrl
  not_closed : ')' ∉ dataUrl

/-- A text is what parts give when they are written back, an image as one it can be taken from. -/
inductive Written (decoder : ImageDecoder) : List GeminiPart → Text → Prop
  | nil : Written decoder [] []
  | text {parts : List GeminiPart} {rest : Text} (s : Text) :
      Written decoder parts rest → Written decoder (.text s :: parts) (s ++ rest)
  | image {parts : List GeminiPart} {rest label dataUrl : Text} {data : InlineData} :
      Label label → DataUrl dataUrl → decodeBase64FileData decoder dataUrl = some data →
      Written decoder parts rest →
      Written decoder (.inlineData data :: parts) (markdownImage label dataUrl ++ rest)

end Property

section Condition

/-- The text has the three markers of an image one behind the other. -/
def Marked (text : Text) : Prop :=
  ∃ textBefore label dataUrl rest, text = textBefore ++ (markdownImage label dataUrl ++ rest) ∧
    "data:".toList <+: dataUrl

/-- Single images that follow texts in which none begins, up to the very end. -/
inductive Chain : Text → Prop
  | nil : Chain []
  | image {textBefore label dataUrl rest : Text} :
      ¬ imageMark <:+: textBefore → Label label → DataUrl dataUrl → Chain rest →
      Chain (textBefore ++ (markdownImage label dataUrl ++ rest))

end Condition

section Scanning

theorem cut_found {c : Char} {w : Text} (hc : c ∉ w) {s : Text} (hs : ¬ c :: w <:+: s) (rest : Text) :
    cut (c :: w) (s ++ (c :: w ++ rest)) = some (s, c :: w ++ rest) := by
  have hin : c :: w <:+: s ++ (c :: w ++ rest) := ⟨s, rest, by simp⟩
  unfold cut
  rw [if_pos hin, before_found hc hs, List.drop_left]

theorem Label.not_data {label : Text} (h : Label label) : ¬ dataMark <:+: label := by
  intro hin
  exact h.no_end (List.IsInfix.trans (List.prefix_append [']', '('] "data:".toList).isInfix hin)

theorem not_infix_marked {label : Text} (h : ¬ dataMark <:+: label) : ¬ dataMark <:+: imageMark ++ label := by
  intro hin
  simp only [imageMark, List.cons_append, List.nil_append, List.infix_cons_iff] at hin
  rcases hin with hstart | hstart | hin
  · exact absurd (List.cons_prefix_cons.mp hstart).1 (by decide)
  · exact absurd (List.cons_prefix_cons.mp hstart).1 (by decide)
  · exact h hin

/-- An image that is the first to begin, and whose label does not go on to another one, is found. -/
theorem findImage_image {textBefore label dataUrl : Text} (hbefore : ¬ imageMark <:+: textBefore)
    (hlabel : ¬ dataMark <:+: label) (hurl : DataUrl dataUrl) (rest : Text) :
    findImage (textBefore ++ (markdownImage label dataUrl ++ rest)) =
      some (textBefore, label, dataUrl, rest) := by
  obtain ⟨tail, hdata⟩ := hurl.data
  have hstart : cut imageMark (textBefore ++ (markdownImage label dataUrl ++ rest)) =
      some (textBefore, markdownImage label dataUrl ++ rest) := by
    have hcut := cut_found (c := '!') (w := ['[']) (by decide) hbefore
      (label ++ ([']', '('] ++ (dataUrl ++ [')'])) ++ rest)
    simpa [imageMark, markdownImage] using hcut
  have hbracket : cut dataMark (markdownImage label dataUrl ++ rest) =
      some (imageMark ++ label, [']', '('] ++ (dataUrl ++ ([')'] ++ rest))) := by
    have hcut := cut_found (c := ']') (w := "(data:".toList) (by decide) (not_infix_marked hlabel)
      (tail ++ ([')'] ++ rest))
    rw [← hdata]
    simpa [imageMark, markdownImage, dataMark] using hcut
  have hclose : cut [')'] (dataUrl ++ ([')'] ++ rest)) = some (dataUrl, [')'] ++ rest) := by
    apply cut_found (by decide)
    rw [List.singleton_infix_iff]
    exact hurl.not_closed
  unfold findImage
  rw [hstart]
  dsimp only
  rw [hbracket]
  dsimp only
  rw [show ([']', '('] ++ (dataUrl ++ ([')'] ++ rest))).drop 2 = dataUrl ++ ([')'] ++ rest) from rfl, hclose]
  rfl

theorem before_length_le (t a b : Text) : (before t (a ++ (t ++ b))).length ≤ a.length := by
  induction a with
  | nil =>
    rw [List.nil_append, Foundation.Joined.before_of_start (List.prefix_append t b)]
  | cons c a ih =>
    rw [List.cons_append, before]
    split_ifs
    · exact Nat.zero_le _
    · exact Nat.succ_le_succ ih

theorem cut_exists (t a b : Text) : ∃ pre a', cut t (a ++ (t ++ b)) = some (pre, a' ++ (t ++ b)) := by
  have hin : t <:+: a ++ (t ++ b) := ⟨a, b, by simp⟩
  refine ⟨before t (a ++ (t ++ b)), a.drop (before t (a ++ (t ++ b))).length, ?_⟩
  unfold cut
  rw [if_pos hin, List.drop_append_of_le_length (before_length_le t a b)]

/-- The three markers, one behind the other, are found. -/
theorem exists_found {text : Text} (h : Marked text) : (findImage text).isSome = true := by
  obtain ⟨textBefore, label, dataUrl, rest, rfl, tail, rfl⟩ := h
  obtain ⟨pre, a, hstart⟩ := cut_exists imageMark textBefore
    (label ++ (dataMark ++ (tail ++ ([')'] ++ rest))))
  obtain ⟨mid, b, hbracket⟩ := cut_exists dataMark (a ++ (imageMark ++ label)) (tail ++ ([')'] ++ rest))
  have hclose : ∃ url atClose, cut [')'] ((b ++ (dataMark ++ (tail ++ ([')'] ++ rest)))).drop 2) =
      some (url, atClose) := by
    have hin : [')'] <:+: (b ++ (dataMark ++ (tail ++ ([')'] ++ rest)))).drop 2 := by
      rw [List.singleton_infix_iff, ← List.append_assoc, List.drop_append_of_le_length (by simp [dataMark])]
      simp
    unfold cut
    rw [if_pos hin]
    exact ⟨_, _, rfl⟩
  obtain ⟨url, atClose, hclose⟩ := hclose
  have htext : textBefore ++ (markdownImage label ("data:".toList ++ tail) ++ rest) =
      textBefore ++ (imageMark ++ (label ++ (dataMark ++ (tail ++ ([')'] ++ rest))))) := by
    simp [markdownImage, dataMark]
  have hmid : a ++ (imageMark ++ (label ++ (dataMark ++ (tail ++ ([')'] ++ rest))))) =
      (a ++ (imageMark ++ label)) ++ (dataMark ++ (tail ++ ([')'] ++ rest))) := by
    simp
  unfold findImage
  rw [htext, hstart]
  dsimp only
  rw [hmid, hbracket]
  dsimp only
  rw [hclose]
  rfl

theorem marked_iff {text : Text} : Marked text ↔ (findImage text).isSome = true := by
  constructor
  · exact exists_found
  · intro h
    obtain ⟨⟨textBefore, label, dataUrl, rest⟩, hfound⟩ := Option.isSome_iff_exists.mp h
    obtain ⟨htext, -, -, hdata, -⟩ := findImage_spec hfound
    exact ⟨textBefore, label, dataUrl, rest, htext, hdata⟩

end Scanning

section Loop

variable {decoder : ImageDecoder}

theorem written_text_iff {s text : Text} {parts : List GeminiPart} :
    Written decoder (.text s :: parts) text ↔ ∃ rest, text = s ++ rest ∧ Written decoder parts rest := by
  constructor
  · intro h
    cases h with
    | text s hrest => exact ⟨_, rfl, hrest⟩
  · rintro ⟨rest, rfl, hrest⟩
    exact .text s hrest

theorem written_image_iff {data : InlineData} {text : Text} {parts : List GeminiPart} :
    Written decoder (.inlineData data :: parts) text ↔
      ∃ label dataUrl rest, text = markdownImage label dataUrl ++ rest ∧ Label label ∧ DataUrl dataUrl ∧
        decodeBase64FileData decoder dataUrl = some data ∧ Written decoder parts rest := by
  constructor
  · intro h
    cases h with
    | image hlabel hurl hdecode hrest => exact ⟨_, _, _, rfl, hlabel, hurl, hdecode, hrest⟩
  · rintro ⟨label, dataUrl, rest, rfl, hlabel, hurl, hdecode, hrest⟩
    exact .image hlabel hurl hdecode hrest

/-- An image with its text before it is written back where its label is that of a single image, and
the rest is. -/
theorem written_found {text textBefore label dataUrl rest : Text} {data : InlineData}
    {parts : List GeminiPart} (hfound : findImage text = some (textBefore, label, dataUrl, rest))
    (hdecode : decodeBase64FileData decoder dataUrl = some data) :
    Written decoder ((if textBefore ≠ [] then [.text textBefore] else []) ++ .inlineData data :: parts) text ↔
      Label label ∧ Written decoder parts rest := by
  obtain ⟨rfl, hbefore, hlabel, hdata, hclosed⟩ := findImage_spec hfound
  have hskip : Written decoder ((if textBefore ≠ [] then [.text textBefore] else []) ++
        .inlineData data :: parts) (textBefore ++ (markdownImage label dataUrl ++ rest)) ↔
      Written decoder (.inlineData data :: parts) (markdownImage label dataUrl ++ rest) := by
    split_ifs with hempty
    · rw [List.singleton_append, written_text_iff]
      constructor
      · rintro ⟨rest', hrest, hwritten⟩
        rwa [List.append_cancel_left hrest]
      · exact fun h ↦ ⟨_, rfl, h⟩
    · rw [not_not] at hempty
      rw [hempty]
      exact Iff.rfl
  rw [hskip, written_image_iff]
  constructor
  · rintro ⟨label', dataUrl', rest', hsame, hlabel', hurl', -, hwritten⟩
    have hnil : ¬ imageMark <:+: [] := by decide
    have hfirst := findImage_image hnil hlabel ⟨hdata, hclosed⟩ rest
    have hother := findImage_image hnil hlabel'.not_data hurl' rest'
    rw [List.nil_append] at hfirst hother
    rw [← hsame, hfirst] at hother
    cases hother
    exact ⟨hlabel', hwritten⟩
  · rintro ⟨hsingle, hwritten⟩
    exact ⟨label, dataUrl, rest, rfl, hsingle, ⟨hdata, hclosed⟩, hdecode, hwritten⟩

theorem chain_found {text textBefore label dataUrl rest : Text}
    (hfound : findImage text = some (textBefore, label, dataUrl, rest)) :
    Chain text ↔ Label label ∧ Chain rest := by
  constructor
  · intro h
    cases h with
    | nil =>
      have hnone : findImage [] = none := by decide
      rw [hnone] at hfound
      cases hfound
    | image hbefore hlabel hurl hrest =>
      rw [findImage_image hbefore hlabel.not_data hurl] at hfound
      cases hfound
      exact ⟨hlabel, hrest⟩
  · rintro ⟨hsingle, hrest⟩
    obtain ⟨rfl, hbefore, -, hdata, hclosed⟩ := findImage_spec hfound
    exact .image hbefore hsingle ⟨hdata, hclosed⟩ hrest

theorem chain_not_found {text : Text} (h : findImage text = none) : Chain text ↔ text = [] := by
  constructor
  · intro hchain
    cases hchain with
    | nil => rfl
    | image hbefore hlabel hurl _ =>
      rw [findImage_image hbefore hlabel.not_data hurl] at h
      cases h
  · rintro rfl
    exact .nil

theorem markdownImages_none {text : Text} (h : findImage text = none) :
    markdownImages decoder text = some [] := by
  rw [markdownImages]
  split
  · rfl
  · rename_i hfound
    rw [h] at hfound
    cases hfound

theorem markdownImages_some {text textBefore label dataUrl rest : Text}
    (h : findImage text = some (textBefore, label, dataUrl, rest)) :
    markdownImages decoder text = (decodeBase64FileData decoder dataUrl).bind fun image ↦
      (markdownImages decoder rest).map fun parts ↦
        (if textBefore ≠ [] then [.text textBefore] else []) ++ .inlineData image :: parts := by
  rw [markdownImages]
  split
  · rename_i hfound
    rw [h] at hfound
    cases hfound
  · rename_i hfound
    rw [h] at hfound
    cases hfound
    rfl

/-- What the loop makes of a text is written back exactly where the text is a chain of images. -/
theorem images_written {text : Text} {parts : List GeminiPart}
    (h : markdownImages decoder text = some parts) : Written decoder parts text ↔ Chain text := by
  induction hn : text.length using Nat.strong_induction_on generalizing text parts with
  | _ n ih =>
    cases hfound : findImage text with
    | none =>
      rw [markdownImages_none hfound] at h
      cases h
      rw [chain_not_found hfound]
      constructor
      · intro hwritten
        cases hwritten
        rfl
      · rintro rfl
        exact .nil
    | some found =>
      obtain ⟨textBefore, label, dataUrl, rest⟩ := found
      rw [markdownImages_some hfound] at h
      obtain ⟨data, hdecode, hrest⟩ := Option.bind_eq_some_iff.mp h
      obtain ⟨parts', hparts', rfl⟩ := Option.map_eq_some_iff.mp hrest
      have hshorter := findImage_shorter hfound
      rw [written_found hfound hdecode, chain_found hfound, ih _ (by omega) hparts' rfl]

/-- The parts of a text are written back to it exactly where no image is found in it, or it is a
chain of images. -/
theorem parts_written {decoder : ImageDecoder} {text : Text} {parts : List GeminiPart}
    (h : textParts decoder text = some parts) :
    Written decoder parts text ↔ ¬ Marked text ∨ Chain text := by
  unfold textParts at h
  split_ifs at h with hempty hfound
  · cases h
    subst hempty
    exact iff_of_true .nil (.inr .nil)
  · rw [images_written h]
    constructor
    · exact .inr
    · rintro (hnot | hchain)
      · exact absurd (marked_iff.mpr hfound) hnot
      · exact hchain
  · cases h
    refine iff_of_true ?_ (.inl fun hmarked ↦ hfound (marked_iff.mp hmarked))
    rw [written_text_iff]
    exact ⟨[], (List.append_nil _).symm, .nil⟩

theorem parts_captioned : Written (fun _ ↦ none)
    [.text ['x'], .inlineData ⟨"image/png".toList, "QQ==".toList⟩]
    "x![a](data:image/png;base64,QQ==)".toList := by
  have hfound : findImage "x![a](data:image/png;base64,QQ==)".toList =
      some (['x'], ['a'], "data:image/png;base64,QQ==".toList, []) := by decide
  refine (parts_written ?_).mpr (.inr ?_)
  · rw [textParts, if_neg (by decide), if_pos (by rw [hfound]; rfl), markdownImages_some hfound,
      markdownImages_none (by decide)]
    decide
  · exact (chain_found hfound).mpr ⟨⟨by decide, by decide⟩, .nil⟩

/-- A text behind its last image is lost. -/
theorem parts_not_written :
    ∃ parts, textParts (fun _ ↦ none) "![a](data:image/png;base64,QQ==)b".toList = some parts ∧
      ¬ Written (fun _ ↦ none) parts "![a](data:image/png;base64,QQ==)b".toList := by
  have hfound : findImage "![a](data:image/png;base64,QQ==)b".toList =
      some ([], ['a'], "data:image/png;base64,QQ==".toList, ['b']) := by decide
  have hparts : markdownImages (fun _ ↦ none) "![a](data:image/png;base64,QQ==)b".toList =
      some [.inlineData ⟨"image/png".toList, "QQ==".toList⟩] := by
    rw [markdownImages_some hfound, markdownImages_none (by decide)]
    decide
  refine ⟨[.inlineData ⟨"image/png".toList, "QQ==".toList⟩], ?_, ?_⟩
  · rw [textParts, if_neg (by decide), if_pos (by rw [hfound]; rfl)]
    exact hparts
  · rw [images_written hparts, chain_found hfound, chain_not_found (by decide)]
    exact fun h ↦ absurd h.2 (by decide)

end Loop

end AllAiTools.NewApi.Relay.ImagesKeepText
