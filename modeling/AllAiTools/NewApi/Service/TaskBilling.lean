import AllAiTools.NewApi.Model.AsyncTask
import AllAiTools.NewApi.Service.Funding

namespace AllAiTools.NewApi.Service.TaskBilling

open Model.AsyncTask Model.Subscription Funding

/-- What a billing step of a task meets: the updates that fail and the key under
which its token is found, empty when it is not. -/
structure BillingFaults where
  wallet : Bool
  delta : Faults
  tokenKey : String
  token : Bool

def taskIsSubscription (t : Task) : Bool :=
  t.privateData.billingSource = "subscription" && 0 < t.privateData.subscriptionId

def taskAdjustFunding (f : BillingFaults) (t : Task) (delta : ℤ) (w : World) :
    Except Cause Unit × World :=
  if taskIsSubscription t then postConsumeDelta f.delta w t.privateData.subscriptionId delta
  else if 0 < delta then decreaseUserQuota f.wallet delta w
  else increaseUserQuota f.wallet (-delta) w

def taskAdjustTokenQuota (f : BillingFaults) (t : Task) (delta : ℤ) (w : World) : World :=
  if t.privateData.tokenId ≤ 0 ∨ delta = 0 then w
  else if f.tokenKey = "" then w
  else if 0 < delta then (decreaseTokenQuota f.token delta w).2
  else (increaseTokenQuota f.token (-delta) w).2

/-- The answer says whether the refund gets as far as its log. -/
def refundTaskQuota (f : BillingFaults) (t : Task) (w : World) : Bool × World :=
  if t.quota = 0 then (false, w)
  else match taskAdjustFunding f t (-t.quota) w with
    | (.error _, w) => (false, w)
    | (.ok (), w) => (true, taskAdjustTokenQuota f t (-t.quota) w)

def recalculateTaskQuota (f : BillingFaults) (t : Task) (actualQuota : ℤ) (w : World) :
    Task × World :=
  if actualQuota ≤ 0 then (t, w)
  else
    let quotaDelta := actualQuota - t.quota
    if quotaDelta = 0 then (t, w)
    else match taskAdjustFunding f t quotaDelta w with
      | (.error _, w) => (t, w)
      | (.ok (), w) =>
        ({ t with quota := actualQuota }, taskAdjustTokenQuota f t quotaDelta w)

/-- What the final bill of a task depends on outside it: the amount its adaptor gives
and the amount its tokens come to at the current ratios, if it is billed by them. -/
structure CompletionBill where
  adaptorQuota : ℤ
  tokenQuota : Option ℤ

def settleTaskBillingOnComplete (f : BillingFaults) (bill : CompletionBill) (totalTokens : ℤ)
    (t : Task) (w : World) : Task × World :=
  if t.privateData.perCallBilling then (t, w)
  else if 0 < bill.adaptorQuota then recalculateTaskQuota f t bill.adaptorQuota w
  else if 0 < totalTokens then
    match bill.tokenQuota with
    | none => (t, w)
    | some actualQuota => recalculateTaskQuota f t actualQuota w
  else (t, w)

/-- The funding of the task takes its pre-consumed quota back. -/
def Pays (f : BillingFaults) (t : Task) (w : World) : Prop :=
  t.quota ≠ 0 ∧ (taskAdjustFunding f t (-t.quota) w).1 = .ok ()

theorem refundTaskQuota_fst (f : BillingFaults) (t : Task) (w : World) :
    (refundTaskQuota f t w).1 = true ↔ Pays f t w := by
  unfold refundTaskQuota Pays
  by_cases hq : t.quota = 0
  · simp [hq]
  · rw [if_neg hq]
    rcases taskAdjustFunding f t (-t.quota) w with ⟨_ | _, w'⟩ <;> simp [hq]

theorem taskAdjustTokenQuota_userQuota (f : BillingFaults) (t : Task) (delta : ℤ) (w : World) :
    (taskAdjustTokenQuota f t delta w).userQuota = w.userQuota := by
  unfold taskAdjustTokenQuota decreaseTokenQuota increaseTokenQuota updateQuota
  split_ifs <;> rfl

/-- A refund that is counted gives a wallet exactly the task's quota, another nothing. -/
theorem refundTaskQuota_wallet {t : Task} (ht : taskIsSubscription t = false) (f : BillingFaults)
    (w : World) :
    (refundTaskQuota f t w).2.userQuota =
      w.userQuota + if (refundTaskQuota f t w).1 then t.quota else 0 := by
  have hadjust : taskAdjustFunding f t (-t.quota) w = (.ok (),
      { w with userQuota := w.userQuota + t.quota }) ∨
      ∃ e, taskAdjustFunding f t (-t.quota) w = (.error e, w) := by
    rw [taskAdjustFunding, ht, if_neg Bool.false_ne_true]
    split_ifs with hq
    · rcases updateQuota_cases f.wallet (-t.quota) w
        { w with userQuota := w.userQuota - -t.quota } with he | he
      · exact .inr he
      · exact .inl (by rw [decreaseUserQuota, he, sub_neg_eq_add])
    · rcases updateQuota_cases f.wallet (- -t.quota) w
        { w with userQuota := w.userQuota + - -t.quota } with he | he
      · exact .inr he
      · exact .inl (by rw [increaseUserQuota, he, neg_neg])
  unfold refundTaskQuota
  by_cases hq : t.quota = 0
  · rw [if_pos hq]
    exact (add_zero _).symm
  · rw [if_neg hq]
    rcases hadjust with he | ⟨e, he⟩
    · rw [he]
      exact taskAdjustTokenQuota_userQuota f t (-t.quota) _
    · rw [he]
      exact (add_zero _).symm

end AllAiTools.NewApi.Service.TaskBilling
