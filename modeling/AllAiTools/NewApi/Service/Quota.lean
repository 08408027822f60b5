import AllAiTools.NewApi.Service.Session

namespace AllAiTools.NewApi.Service.Quota

open Model.Subscription Funding Session

/-- The updates of one charge that fail. -/
structure ConsumeFaults where
  wallet : Bool
  delta : Faults
  token : Bool

inductive ConsumeError
  | subscriptionIdMissing
  | cause (c : Cause)
  deriving DecidableEq

def ConsumeError.text (formatQuota : ℤ → String) : ConsumeError → String
  | .subscriptionIdMissing => "subscription id is missing"
  | .cause c => c.text formatQuota

/-- An amount taken from a wallet or a token, or given to it when it is not positive. -/
def takeUserQuota (failed : Bool) (quota : ℤ) (w : World) : Except Cause Unit × World :=
  if 0 < quota then decreaseUserQuota failed quota w else increaseUserQuota failed (-quota) w

def takeTokenQuota (failed : Bool) (quota : ℤ) (w : World) : Except Cause Unit × World :=
  if 0 < quota then decreaseTokenQuota failed quota w else increaseTokenQuota failed (-quota) w

/-- The funding's part of `PostConsumeQuota`. -/
def consumeFunding (f : ConsumeFaults) (info : RelayInfo) (quota : ℤ) (w : World) :
    Except ConsumeError RelayInfo × World :=
  if info.billingSource = some .subscription then
    if info.subscriptionId = 0 then (.error .subscriptionIdMissing, w)
    else if quota = 0 then (.ok info, w)
    else match postConsumeDelta f.delta w info.subscriptionId quota with
      | (.error e, w) => (.error (.cause e), w)
      | (.ok (), w) =>
        (.ok { info with subscriptionPostDelta := info.subscriptionPostDelta + quota }, w)
  else match takeUserQuota f.wallet quota w with
    | (.error e, w) => (.error (.cause e), w)
    | (.ok (), w) => (.ok info, w)

/-- The relay info keeps the delta of a subscription whatever becomes of the token. -/
def postConsumeQuota (f : ConsumeFaults) (info : RelayInfo) (quota : ℤ) (w : World) :
    Except ConsumeError Unit × RelayInfo × World :=
  match consumeFunding f info quota w with
  | (.error e, w) => (.error e, info, w)
  | (.ok info, w) =>
    if info.isPlayground then (.ok (), info, w)
    else match takeTokenQuota f.token quota w with
      | (.error e, w) => (.error (.cause e), info, w)
      | (.ok (), w) => (.ok (), info, w)

theorem takeTokenQuota_userQuota (failed : Bool) (quota : ℤ) (w : World) :
    (takeTokenQuota failed quota w).2.userQuota = w.userQuota := by
  unfold takeTokenQuota decreaseTokenQuota increaseTokenQuota updateQuota
  split_ifs <;> rfl

theorem takeUserQuota_cases (failed : Bool) (quota : ℤ) (w : World) :
    (∃ e, takeUserQuota failed quota w = (.error e, w)) ∨
      takeUserQuota failed quota w = (.ok (), { w with userQuota := w.userQuota - quota }) := by
  unfold takeUserQuota
  split_ifs with hq
  · exact updateQuota_cases failed quota w _
  · rcases updateQuota_cases failed (-quota) w { w with userQuota := w.userQuota + -quota } with
      he | he
    · exact .inl he
    · exact .inr he

/-- A wallet pays the whole amount or nothing. -/
theorem postConsumeQuota_wallet {info : RelayInfo} (h : info.billingSource ≠ some .subscription)
    (f : ConsumeFaults) (quota : ℤ) (w : World) :
    (postConsumeQuota f info quota w).2.2.userQuota = w.userQuota ∨
      (postConsumeQuota f info quota w).2.2.userQuota = w.userQuota - quota := by
  rw [postConsumeQuota, consumeFunding, if_neg h]
  rcases takeUserQuota_cases f.wallet quota w with ⟨e, he⟩ | he
  · rw [he]
    exact .inl rfl
  · rw [he]
    have htoken := takeTokenQuota_userQuota f.token quota
      { w with userQuota := w.userQuota - quota }
    dsimp only
    generalize takeTokenQuota f.token quota { w with userQuota := w.userQuota - quota } = r
      at htoken ⊢
    obtain ⟨answer, w'⟩ := r
    split_ifs
    · exact .inr rfl
    · cases answer with
      | error e => exact .inr htoken
      | ok u => exact .inr htoken

end AllAiTools.NewApi.Service.Quota
