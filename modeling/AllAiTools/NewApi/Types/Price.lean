import AllAiTools.Foundation.Table

namespace AllAiTools.NewApi.Types.Price

open Foundation

structure GroupRatioInfo where
  groupRatio : ℚ
  groupSpecialRatio : ℚ := -1
  hasSpecialRatio : Bool := false

/-- Named ratios. -/
abbrev Ratios := Table (Prod.fst : String × ℚ → String)

structure PriceData where
  freeModel : Bool := false
  modelPrice : ℚ := 0
  modelRatio : ℚ := 0
  completionRatio : ℚ := 0
  cacheRatio : ℚ := 0
  cacheCreationRatio : ℚ := 0
  cacheCreation5mRatio : ℚ := 0
  cacheCreation1hRatio : ℚ := 0
  imageRatio : ℚ := 0
  otherRatios : Ratios := .empty
  usePrice : Bool := false
  quota : ℤ := 0
  groupRatioInfo : GroupRatioInfo

def PriceData.addOtherRatio (p : PriceData) (key : String) (ratio : ℚ) : PriceData :=
  if ratio ≤ 0 then p else { p with otherRatios := p.otherRatios.put (key, ratio) }

end AllAiTools.NewApi.Types.Price
