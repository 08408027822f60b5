import AllAiTools.Foundation.Joined
import AllAiTools.NewApi.Relay.ParamOverride

namespace AllAiTools.NewApi.Relay.GeminiContent

open Foundation.Joined (before)
open ParamOverride (Text)

/-- A text at the first occurrence of a marker, which `strings.Index` finds: what stands before it,
and the rest from it on. -/
def cut (marker text : Text) : Option (Text × Text) :=
  if marker <:+: text then some (before marker text, text.drop (before marker text).length) else none

section Files

/-- What `DecodeBase64ImageData` gives: the format of an image and its data. -/
abbrev ImageDecoder := Text → Option (Text × Text)

structure InlineData where
  mimeType : Text
  data : Text
  deriving DecidableEq

def imageData (decoder : ImageDecoder) (base64String : Text) : Option InlineData :=
  (decoder base64String).map fun image ↦ ⟨"image/".toList ++ image.1, image.2⟩

def decodeBase64FileData (decoder : ImageDecoder) (base64String : Text) : Option InlineData :=
  match cut [','] base64String with
  | none => imageData decoder base64String
  | some (mimeType, rest) =>
    let base64String := rest.drop 1
    match cut [';'] mimeType with
    | none => imageData decoder base64String
    | some (mimeType, _) =>
      match cut [':'] mimeType with
      | none => imageData decoder base64String
      | some (_, mimeType) => some ⟨mimeType.drop 1, base64String⟩

end Files

inductive GeminiPart
  | text (s : Text)
  | inlineData (data : InlineData)
  deriving DecidableEq

def imageMark : Text := ['!', '[']

def dataMark : Text := [']', '(', 'd', 'a', 't', 'a', ':']

/-- The first image of a text: what stands before it, its own text, its data URL, and the rest. -/
def findImage (text : Text) : Option (Text × Text × Text × Text) :=
  match cut imageMark text with
  | none => none
  | some (textBefore, atStart) =>
    match cut dataMark atStart with
    | none => none
    | some (label, atBracket) =>
      match cut [')'] (atBracket.drop 2) with
      | none => none
      | some (dataUrl, atClose) => some (textBefore, label.drop 2, dataUrl, atClose.drop 1)

/-- A markdown image, of its label and its data URL. -/
def markdownImage (label dataUrl : Text) : Text := imageMark ++ (label ++ ([']', '('] ++ (dataUrl ++ [')'])))

theorem cut_spec {marker text textBefore rest : Text} (hne : marker ≠ [])
    (h : cut marker text = some (textBefore, rest)) :
    (∃ tail, rest = marker ++ tail) ∧ text = textBefore ++ rest ∧ ¬ marker <:+: textBefore := by
  unfold cut at h
  split_ifs at h with hin
  cases h
  have hwhole := Foundation.Joined.before_append_drop hin
  have hrest : marker ++ text.drop ((before marker text).length + marker.length) =
      text.drop (before marker text).length := by
    have hdrop := congrArg (List.drop (before marker text).length) hwhole
    rwa [List.drop_left] at hdrop
  rw [hrest] at hwhole
  exact ⟨⟨_, hrest.symm⟩, hwhole.symm, Foundation.Joined.not_infix_before hne⟩

/-- What is found is an image, at the first place where one begins. -/
theorem findImage_spec {text textBefore label dataUrl rest : Text}
    (h : findImage text = some (textBefore, label, dataUrl, rest)) :
    text = textBefore ++ (markdownImage label dataUrl ++ rest) ∧ ¬ imageMark <:+: textBefore ∧
      ¬ dataMark <:+: label ∧ "data:".toList <+: dataUrl ∧ ')' ∉ dataUrl := by
  unfold findImage at h
  split at h
  · cases h
  rename_i pre atStart hstart
  split at h
  · cases h
  rename_i mid atBracket hbracket
  split at h
  · cases h
  rename_i url atClose hclose
  obtain ⟨⟨tail, rfl⟩, htext, hpre⟩ := cut_spec (by decide) hstart
  obtain ⟨⟨tail', rfl⟩, hmid, hlabel⟩ := cut_spec (by decide) hbracket
  obtain ⟨⟨tail'', rfl⟩, hurl, hnone⟩ := cut_spec (by decide) hclose
  injection h with h
  injection h with h₁ h
  injection h with h₂ h
  injection h with h₃ h₄
  subst h₁ h₂ h₃ h₄
  have hstarts : ∃ label, mid = imageMark ++ label := by
    cases mid with
    | nil => exact absurd hmid (by simp [imageMark, dataMark])
    | cons a mid =>
      cases mid with
      | nil => exact absurd hmid (by simp [imageMark, dataMark])
      | cons b mid =>
        simp only [imageMark, List.cons_append, List.cons.injEq] at hmid
        obtain ⟨rfl, rfl, -⟩ := hmid
        exact ⟨mid, rfl⟩
  obtain ⟨label, rfl⟩ := hstarts
  have hdrop : (imageMark ++ label).drop 2 = label := rfl
  have hdata : (dataMark ++ tail').drop 2 = "data:".toList ++ tail' := rfl
  have hclose : ([')'] ++ tail'').drop 1 = tail'' := rfl
  rw [hdata] at hurl
  rw [hdrop, hclose]
  have hnot : ')' ∉ url := fun hin ↦ hnone ((List.singleton_infix_iff _ _).mpr hin)
  refine ⟨?_, hpre, fun hin ↦ hlabel (hin.trans (List.suffix_append imageMark label).isInfix), ?_, hnot⟩
  · have hbody : dataMark ++ tail' = [']', '('] ++ (url ++ ([')'] ++ tail'')) := by
      rw [← hurl]
      rfl
    rw [htext, hmid, hbody]
    simp [markdownImage]
  · have hboth : url <+: "data:".toList ++ tail' := ⟨_, hurl.symm⟩
    rcases List.prefix_or_prefix_of_prefix (List.prefix_append "data:".toList tail') hboth with hin | ⟨t, ht⟩
    · exact hin
    · cases t with
      | nil =>
        rw [List.append_nil] at ht
        exact ht ▸ List.prefix_rfl
      | cons c t =>
        rw [← ht, List.append_assoc] at hurl
        have hc := (List.cons_eq_cons.mp (List.append_cancel_left hurl)).1
        have hmem : ')' ∈ "data:".toList := by
          rw [← ht, ← hc]
          exact List.mem_append_right url List.mem_cons_self
        exact absurd hmem (by decide)

theorem findImage_shorter {text textBefore label dataUrl rest : Text}
    (h : findImage text = some (textBefore, label, dataUrl, rest)) : rest.length < text.length := by
  obtain ⟨htext, -⟩ := findImage_spec h
  rw [htext]
  simp only [markdownImage, imageMark, List.length_append, List.length_cons]
  omega

/-- The loop over the images of a text, which ends as the rest gets shorter; it fails where an image
cannot be decoded. -/
def markdownImages (decoder : ImageDecoder) (text : Text) : Option (List GeminiPart) :=
  match h : findImage text with
  | none => some []
  | some (textBefore, _, dataUrl, rest) =>
    (decodeBase64FileData decoder dataUrl).bind fun image ↦
      (markdownImages decoder rest).map fun parts ↦
        (if textBefore ≠ [] then [.text textBefore] else []) ++ .inlineData image :: parts
termination_by text.length
decreasing_by exact findImage_shorter h

/-- What `CovertOpenAI2Gemini` makes of a text part. -/
def textParts (decoder : ImageDecoder) (text : Text) : Option (List GeminiPart) :=
  if text = [] then some []
  else if (findImage text).isSome then markdownImages decoder text
  else some [.text text]

end AllAiTools.NewApi.Relay.GeminiContent
