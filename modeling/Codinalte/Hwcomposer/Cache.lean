import Codinalte.Hwcomposer.Prepare

/-! What one prepare does to the layer cache and to the block of saved composition types, and
the invariant of the two that every call keeps. -/

namespace Codinalte.Hwcomposer
variable {ctx ctx' : HwcomposerContext} {layers layers' : List HwcLayer} {mallocs : Mallocs}

/-- The fields of the context that only the cache functions and setparameter write. -/
structure CacheState where
  pendingRotation : Bool
  cachedLayers : Option (List (Option Handle))
  cachedLayersCount : Nat
  grabbedAllLayers : Bool
  actualCompositionTypes : Option (List Int)
  actualCompositionTypesSize : Nat

def HwcomposerContext.cacheState (ctx : HwcomposerContext) : CacheState :=
  ⟨ctx.pendingRotation, ctx.cachedLayers, ctx.cachedLayersCount, ctx.grabbedAllLayers,
    ctx.actualCompositionTypes, ctx.actualCompositionTypesSize⟩

structure CacheInv (c : CacheState) : Prop where
  cacheSize : ∀ blk ∈ c.cachedLayers, blk.length = cachedLayersSize
  countFilled : c.cachedLayersCount ≠ 0 → c.cachedLayers.isSome
  typesSize : ∀ blk ∈ c.actualCompositionTypes, blk.length = c.actualCompositionTypesSize
  grabbedCache : c.grabbedAllLayers = true → c.cachedLayers.isSome
  grabbedTypes : c.grabbedAllLayers = true → c.actualCompositionTypes.isSome
  grabbedCount : c.grabbedAllLayers = true → c.cachedLayersCount ≠ 0 →
    c.cachedLayersCount = c.actualCompositionTypesSize

theorem cache_inv_opened : CacheInv HwcomposerContext.opened.cacheState := by
  constructor <;> simp [HwcomposerContext.opened, HwcomposerContext.cacheState]

theorem find_video_cache (gralloc : Handle → GrallocBuf) (ctx : HwcomposerContext)
    (layers : List HwcLayer) :
    (findVideo gralloc ctx layers).1.cacheState = ctx.cacheState := by
  induction layers generalizing ctx with
  | nil => rfl
  | cons layer rest ih =>
    simp only [findVideo]
    split_ifs
    · rfl
    · exact ih _
    · exact ih _
    · exact ih _

theorem decide_layers_cache (gralloc : Handle → GrallocBuf) (ctx : HwcomposerContext)
    (layers : List HwcLayer) :
    (decideLayers gralloc ctx layers).1.cacheState = ctx.cacheState := by
  cases layers with
  | nil => rfl
  | cons layer rest =>
    simp only [decideLayers]
    split_ifs <;> rfl

theorem decide_composition_cache (gralloc : Handle → GrallocBuf) (ctx : HwcomposerContext)
    (list : HwcLayerList) :
    (decideComposition gralloc ctx list).1.cacheState = ctx.cacheState := by
  unfold decideComposition
  split_ifs
  · exact (decide_layers_cache ..).trans (find_video_cache ..)
  · rfl

theorem decide_layers_length (gralloc : Handle → GrallocBuf) (ctx : HwcomposerContext)
    (layers : List HwcLayer) : (decideLayers gralloc ctx layers).2.length = layers.length := by
  cases layers with
  | nil => rfl
  | cons layer rest =>
    have hreset : (resetHead rest).length = rest.length := by
      cases rest <;> rfl
    simp only [decideLayers]
    split_ifs <;> simp [hreset]

theorem decide_composition_length (gralloc : Handle → GrallocBuf) (ctx : HwcomposerContext)
    (list : HwcLayerList) :
    (decideComposition gralloc ctx list).2.1.length = list.hwLayers.length := by
  unfold decideComposition
  split_ifs
  · exact decide_layers_length ..
  · rfl

/-- The layers with the composition types that a prepare of `list` decides. -/
def decidedLayers (gralloc : Handle → GrallocBuf) (list : HwcLayerList) : List HwcLayer :=
  (decideComposition gralloc .opened list).2.1

theorem decide_composition_layers (gralloc : Handle → GrallocBuf) (ctx : HwcomposerContext)
    (list : HwcLayerList) :
    (decideComposition gralloc ctx list).2.1 = decidedLayers gralloc list := by
  have hlayers : ∀ (c d : HwcomposerContext) (layers : List HwcLayer),
      (decideLayers gralloc c layers).2 = (decideLayers gralloc d layers).2 := by
    intro c d layers
    cases layers with
    | nil => rfl
    | cons layer rest =>
      simp only [decideLayers]
      split_ifs <;> rfl
  unfold decidedLayers decideComposition
  split_ifs
  · exact hlayers _ _ _
  · rfl

theorem revert_resolution_cache (ctx : HwcomposerContext) :
    (revertResolution ctx).1.cacheState = ctx.cacheState := by
  unfold revertResolution
  split_ifs <;> rfl

/-- Where the cache is not allocated yet, nothing of it is in use, so a failed `malloc` leaves
the same picture as a successful one but for the block. -/
theorem init_layer_cache_cases (hinv : CacheInv ctx.cacheState) (malloc : Bool) :
    (initLayerCacheLocked malloc ctx = { ctx with
      cachedLayers := some (List.replicate cachedLayersSize none)
      cachedLayersCount := 0
      grabbedAllLayers := false }) ∨
    (initLayerCacheLocked malloc ctx = ctx ∧ ctx.cachedLayers = none ∧
      ctx.cachedLayersCount = 0 ∧ ctx.grabbedAllLayers = false) := by
  by_cases hfail : (ctx.cachedLayers.isNone && !malloc) = true
  · right
    have hnone : ctx.cachedLayers = none := by
      simp only [Bool.and_eq_true, Option.isNone_iff_eq_none] at hfail
      exact hfail.1
    refine ⟨by unfold initLayerCacheLocked; rw [if_pos hfail], hnone, ?_, ?_⟩
    · by_contra hcount
      have := hinv.countFilled hcount
      simp [HwcomposerContext.cacheState, hnone] at this
    · by_contra hgrabbed
      have := hinv.grabbedCache (Bool.not_eq_false _ ▸ hgrabbed)
      simp [HwcomposerContext.cacheState, hnone] at this
  · left
    unfold initLayerCacheLocked
    rw [if_neg hfail]

theorem init_layer_cache_inv (hinv : CacheInv ctx.cacheState) (malloc : Bool) :
    CacheInv (initLayerCacheLocked malloc ctx).cacheState := by
  rcases init_layer_cache_cases hinv malloc with h | ⟨h, -⟩
  · rw [h]
    constructor <;> simp [HwcomposerContext.cacheState]
    exact hinv.typesSize
  · rw [h]
    exact hinv

/-- What populating leaves: the cache filled from this list, or, for an empty list and a failed
`malloc`, an unallocated cache that stays out of use. -/
theorem populate_cached_layer_cases (hinv : CacheInv ctx.cacheState) {malloc : Bool}
    (hsize : layers.length ≤ cachedLayersSize)
    (h : populateCachedLayerLocked malloc ctx layers = some ctx') :
    (ctx' = { ctx with
      cachedLayers := some (layers.map (·.handle) ++
        List.replicate (cachedLayersSize - layers.length) none)
      cachedLayersCount := if layers.any (·.isOverlay) then layers.length else 0
      grabbedAllLayers := false }) ∨
    (layers = [] ∧ ctx' = ctx ∧ ctx.cachedLayers = none ∧ ctx.cachedLayersCount = 0 ∧
      ctx.grabbedAllLayers = false) := by
  unfold populateCachedLayerLocked at h
  rcases init_layer_cache_cases hinv malloc with hinit | ⟨hinit, hnone, hcount, hgrabbed⟩
  · left
    have hlen : (layers.map (·.handle)).length ≤
        (List.replicate cachedLayersSize (none : Option Handle)).length := by
      simpa using hsize
    simp only [hinit, store_eq_some hlen, Option.map_some, Option.some.injEq, List.length_map,
      List.drop_replicate, Nat.zero_add] at h
    exact h.symm
  · right
    cases layers with
    | nil =>
      simp only [hinit, List.map_nil, store, Option.map_some, Option.some.injEq, List.any_nil,
        Bool.false_eq_true, if_false] at h
      refine ⟨rfl, ?_, hnone, hcount, hgrabbed⟩
      rw [← h, ← hcount]
    | cons layer rest => simp [hinit, hnone, store] at h

theorem populate_cached_layer_inv (hinv : CacheInv ctx.cacheState) {malloc : Bool}
    (hsize : layers.length ≤ cachedLayersSize)
    (h : populateCachedLayerLocked malloc ctx layers = some ctx') :
    CacheInv ctx'.cacheState ∧ ctx'.grabbedAllLayers = false := by
  rcases populate_cached_layer_cases hinv hsize h with rfl | ⟨-, rfl, -, -, hgrabbed⟩
  · refine ⟨?_, rfl⟩
    constructor <;> simp [HwcomposerContext.cacheState]
    · omega
    · exact hinv.typesSize
  · exact ⟨hinv, hgrabbed⟩

/-- The exits of `check_cached_layers_locked` that leave `grabbed_all_layers` as it was. -/
def leavesCacheEarly (c : CacheState) (layers : List HwcLayer) : Prop :=
  layers.length ≠ 1 ∧ c.pendingRotation = false ∧
    (cachedLayersSize < layers.length ∨
      layers.length ≤ cachedLayersSize ∧ c.cachedLayersCount ≠ 0 ∧
      c.cachedLayersCount = layers.length ∧
      c.cachedLayers.bind (scanCachedLayers · layers) = some .nullOrSkip)

/-- The four ways through `check_cached_layers_locked`. Where the cache is in use it was
allocated before, so the two that find it in use start from the context itself. -/
theorem check_cached_layers_cases (hinv : CacheInv ctx.cacheState) {hit : Bool}
    (h : checkCachedLayersLocked mallocs ctx layers = some (ctx', hit)) :
    (cachedLayersSize < layers.length ∧ hit = false ∧
      (ctx' = ctx ∨ ctx.cachedLayers = none ∧ ctx' = initLayerCacheLocked mallocs.check ctx)) ∨
    (layers.length ≤ cachedLayersSize ∧ hit = false ∧ ∃ ctx₀,
      CacheInv ctx₀.cacheState ∧ (ctx₀ = ctx ∨ ctx₀ = initLayerCacheLocked mallocs.check ctx) ∧
      populateCachedLayerLocked mallocs.populate ctx₀ layers = some ctx' ∧
      (ctx.cachedLayersCount = 0 ∨ ctx.cachedLayersCount ≠ layers.length ∨
        ctx.cachedLayers.bind (scanCachedLayers · layers) = some .mismatch)) ∨
    (layers.length ≤ cachedLayersSize ∧ ctx.cachedLayersCount ≠ 0 ∧
      ctx.cachedLayersCount = layers.length ∧ hit = true ∧ ctx' = ctx ∧
      ctx.cachedLayers.bind (scanCachedLayers · layers) = some .hit) ∨
    (layers.length ≤ cachedLayersSize ∧ ctx.cachedLayersCount ≠ 0 ∧
      ctx.cachedLayersCount = layers.length ∧ hit = false ∧
      ctx' = { ctx with cachedLayersCount := 0 } ∧
      ctx.cachedLayers.bind (scanCachedLayers · layers) = some .nullOrSkip) := by
  by_cases hnone : ctx.cachedLayers = none
  · -- nothing cached yet: the count is 0, with or without the block
    have hzero : ctx.cachedLayersCount = 0 := by
      by_contra hcount
      have := hinv.countFilled hcount
      simp [HwcomposerContext.cacheState, hnone] at this
    have hcount : (initLayerCacheLocked mallocs.check ctx).cachedLayersCount = 0 := by
      rcases init_layer_cache_cases hinv mallocs.check with hinit | ⟨hinit, -, hcount, -⟩
      · rw [hinit]
      · rw [hinit, hcount]
    simp only [checkCachedLayersLocked, hnone, Option.isNone_none, if_true, hcount, true_or] at h
    split_ifs at h with hlen
    · left
      cases h
      exact ⟨hlen, rfl, .inr ⟨hnone, rfl⟩⟩
    · right; left
      obtain ⟨ctx₁, hpop, heq⟩ := Option.map_eq_some_iff.mp h
      cases heq
      exact ⟨by omega, rfl, _, init_layer_cache_inv hinv _, .inr rfl, hpop, .inl hzero⟩
  · have hsome : ctx.cachedLayers.isNone = false := by
      rw [Option.isNone_eq_false_iff, Option.isSome_iff_ne_none]
      exact hnone
    simp only [checkCachedLayersLocked, hsome, Bool.false_eq_true, if_false] at h
    split_ifs at h with hlen hcount
    · left
      cases h
      exact ⟨hlen, rfl, .inl rfl⟩
    · right; left
      obtain ⟨ctx₁, hpop, heq⟩ := Option.map_eq_some_iff.mp h
      cases heq
      refine ⟨by omega, rfl, ctx, hinv, .inl rfl, hpop, ?_⟩
      rcases hcount with hcount | hcount
      · exact .inl hcount
      · exact .inr (.inl hcount)
    · push Not at hcount
      split at h
      · cases h
      · next hscan =>
        right; right; left
        cases h
        exact ⟨by omega, hcount.1, hcount.2, rfl, rfl, hscan⟩
      · next hscan =>
        right; left
        obtain ⟨ctx₁, hpop, heq⟩ := Option.map_eq_some_iff.mp h
        cases heq
        exact ⟨by omega, rfl, ctx, hinv, .inl rfl, hpop, .inr (.inr hscan)⟩
      · next hscan =>
        right; right; right
        cases h
        exact ⟨by omega, hcount.1, hcount.2, rfl, rfl, hscan⟩

theorem store_all {α : Type} {blk xs : List α} (h : xs.length = blk.length) :
    store (some blk) xs = some (some xs) := by
  rw [store_eq_some (Nat.le_of_eq h), h, List.drop_length, List.append_nil]

theorem grab_all_layers_cases (hinv : CacheInv ctx.cacheState) {malloc ok : Bool}
    (h : grabAllLayersLocked malloc ctx layers = some (ctx', layers', ok)) :
    (ok = true ∧ layers' = overlayAll layers ∧ ctx' = { ctx with
      grabbedAllLayers := true
      actualCompositionTypes := some (layers.map (·.compositionType))
      actualCompositionTypesSize := layers.length }) ∨
    (ok = false ∧ layers' = layers ∧ ctx' = { ctx with
      actualCompositionTypes := none
      actualCompositionTypesSize := layers.length } ∧
      ¬ (ctx.actualCompositionTypes.isSome ∧
        ctx.actualCompositionTypesSize = layers.length)) := by
  have hfresh : (layers.map (·.compositionType)).length =
      (List.replicate layers.length (0 : Int)).length := by
    simp
  by_cases hkept : ctx.actualCompositionTypes.isSome ∧
      ctx.actualCompositionTypesSize = layers.length
  · obtain ⟨blk, hblk⟩ := Option.isSome_iff_exists.mp hkept.1
    have hlen : (layers.map (·.compositionType)).length = blk.length := by
      rw [List.length_map, ← hkept.2]
      exact (hinv.typesSize blk hblk).symm
    simp only [grabAllLayersLocked, hkept.2, ne_eq, not_true_eq_false, false_and, if_false, hblk,
      Option.isNone_some, Bool.false_eq_true, store_all hlen, Option.map_some,
      Option.some.injEq, Prod.mk.injEq] at h
    obtain ⟨rfl, rfl, rfl⟩ := h
    exact .inl ⟨rfl, rfl, by rw [← hkept.2]⟩
  · -- whatever block there was is freed, so the types are written to a fresh one
    have hnone : (if ctx.actualCompositionTypesSize ≠ layers.length ∧
        ctx.actualCompositionTypes.isSome then
        { ctx with actualCompositionTypes := none, actualCompositionTypesSize := 0 }
        else ctx).actualCompositionTypes = none := by
      split_ifs with hfree
      · rfl
      · by_contra hsome
        have := Option.isSome_iff_ne_none.mpr hsome
        exact hkept ⟨this, by_contra fun hne => hfree ⟨hne, this⟩⟩
    cases malloc with
    | false =>
      simp only [grabAllLayersLocked, hnone, Option.isNone_none, if_true, Bool.false_eq_true,
        if_false, Option.some.injEq, Prod.mk.injEq] at h
      obtain ⟨rfl, rfl, rfl⟩ := h
      refine .inr ⟨rfl, rfl, ?_, hkept⟩
      split_ifs <;> rfl
    | true =>
      simp only [grabAllLayersLocked, hnone, Option.isNone_none, if_true, Option.isNone_some,
        Bool.false_eq_true, if_false, store_all hfresh, Option.map_some, Option.some.injEq,
        Prod.mk.injEq] at h
      obtain ⟨rfl, rfl, rfl⟩ := h
      refine .inl ⟨rfl, rfl, ?_⟩
      split_ifs <;> rfl

theorem grab_all_layers_inv (hinv : CacheInv ctx.cacheState) (hcount : ctx.cachedLayersCount ≠ 0)
    (hlen : ctx.cachedLayersCount = layers.length) {malloc ok : Bool}
    (h : grabAllLayersLocked malloc ctx layers = some (ctx', layers', ok)) :
    CacheInv ctx'.cacheState := by
  rcases grab_all_layers_cases hinv h with ⟨-, -, rfl⟩ | ⟨-, -, rfl, hfresh⟩
  · constructor <;> simp [HwcomposerContext.cacheState]
    · exact hinv.cacheSize
    · exact hinv.countFilled
    · exact hinv.countFilled hcount
    · exact fun _ => hlen
  · have hgrabbed : ctx.grabbedAllLayers = false := by
      by_contra hg
      have hg := Bool.not_eq_false _ ▸ hg
      exact hfresh ⟨hinv.grabbedTypes hg, (hinv.grabbedCount hg hcount).symm.trans hlen⟩
    constructor <;> simp [HwcomposerContext.cacheState, hgrabbed]
    · exact hinv.cacheSize
    · exact hinv.countFilled

theorem cache_fresh_not_grabbed (hinv : CacheInv ctx.cacheState)
    (hnone : ctx.cachedLayers = none) : ctx.grabbedAllLayers = false := by
  by_contra hg
  have := hinv.grabbedCache (Bool.not_eq_false _ ▸ hg)
  simp [HwcomposerContext.cacheState, hnone] at this

theorem init_layer_cache_cleared (hinv : CacheInv ctx.cacheState) (malloc : Bool) :
    (initLayerCacheLocked malloc ctx).grabbedAllLayers = false := by
  rcases init_layer_cache_cases hinv malloc with hinit | ⟨hinit, -, -, hgrabbed⟩
  · rw [hinit]
  · rw [hinit, hgrabbed]

/-- What `check_cached_layers_locked` does to the flag. -/
theorem check_cached_layers_flag (hinv : CacheInv ctx.cacheState) {hit : Bool}
    (hoff : layers.length ≠ 1 ∧ ctx.pendingRotation = false)
    (h : checkCachedLayersLocked mallocs ctx layers = some (ctx', hit)) :
    CacheInv ctx'.cacheState ∧
    (hit = false → (ctx'.grabbedAllLayers = true ↔
      ctx.grabbedAllLayers = true ∧ leavesCacheEarly ctx.cacheState layers)) ∧
    (hit = true → ctx' = ctx ∧ ctx.cachedLayersCount ≠ 0 ∧
      ctx.cachedLayersCount = layers.length ∧ ¬ leavesCacheEarly ctx.cacheState layers) := by
  rcases check_cached_layers_cases hinv h with
    ⟨hlen, rfl, hctx⟩ | ⟨hlen, rfl, ctx₀, hinv₀, hctx, hpop, hwhy⟩ |
    ⟨hlen, hcount, hall, rfl, rfl, hscan⟩ | ⟨hlen, hcount, hall, rfl, rfl, hscan⟩
  · -- too many layers
    have hearly : leavesCacheEarly ctx.cacheState layers := ⟨hoff.1, hoff.2, .inl hlen⟩
    rcases hctx with rfl | ⟨hnone, rfl⟩
    · exact ⟨hinv, by simp [hearly], by simp⟩
    · refine ⟨init_layer_cache_inv hinv _, ?_, by simp⟩
      simp [init_layer_cache_cleared hinv, cache_fresh_not_grabbed hinv hnone]
  · -- populated: the flag is cleared, and no early exit was on the way
    obtain ⟨hinv₁, hcleared⟩ := populate_cached_layer_inv hinv₀ hlen hpop
    refine ⟨hinv₁, fun _ => ?_, by simp⟩
    simp only [hcleared, Bool.false_eq_true, false_iff, not_and]
    rintro - ⟨-, -, hlong | ⟨-, hcount, hall, hscan⟩⟩
    · omega
    · rcases hwhy with hzero | hdiff | hmismatch
      · exact hcount hzero
      · exact hdiff hall
      · cases hmismatch.symm.trans hscan
  · -- a full hit
    refine ⟨hinv, by simp, fun _ => ⟨rfl, hcount, hall, ?_⟩⟩
    rintro ⟨-, -, hlong | ⟨-, -, -, hnull⟩⟩
    · omega
    · cases hscan.symm.trans hnull
  · -- a NULL or skip layer: the flag stays
    have hearly : leavesCacheEarly ctx.cacheState layers :=
      ⟨hoff.1, hoff.2, .inr ⟨hlen, hcount, hall, hscan⟩⟩
    refine ⟨?_, by simp [hearly], by simp⟩
    constructor <;> simp [HwcomposerContext.cacheState]
    · exact hinv.cacheSize
    · exact hinv.typesSize
    · exact hinv.grabbedCache
    · exact hinv.grabbedTypes

/-- What the cache part of prepare does to the list and to the flag. -/
theorem cache_layers_cases (hinv : CacheInv ctx.cacheState) {outcome : CacheOutcome}
    (h : cacheLayers mallocs ctx layers = some (ctx', layers', outcome)) :
    CacheInv ctx'.cacheState ∧
    ((outcome = .grabbed ∧ layers' = overlayAll layers ∧ ctx'.grabbedAllLayers = true ∧
      ctx'.actualCompositionTypes = some (layers.map (·.compositionType)) ∧
      ctx'.actualCompositionTypesSize = layers.length) ∨
    (outcome ≠ .grabbed ∧ layers' = layers ∧
      (ctx'.grabbedAllLayers = true ↔
        ctx.grabbedAllLayers = true ∧ leavesCacheEarly ctx.cacheState layers))) := by
  unfold cacheLayers at h
  by_cases hoff : layers.length ≠ 1 ∧ ctx.pendingRotation = false
  · rw [if_pos hoff] at h
    split at h
    · cases h
    · next hcheck =>
      cases h
      obtain ⟨hinv₁, hflag, -⟩ := check_cached_layers_flag hinv hoff hcheck
      exact ⟨hinv₁, .inr ⟨by decide, rfl, hflag rfl⟩⟩
    · next hcheck =>
      obtain ⟨-, -, hhit⟩ := check_cached_layers_flag hinv hoff hcheck
      obtain ⟨rfl, hcount, hall, hearly⟩ := hhit rfl
      split at h
      · cases h
      · next hgrab =>
        cases h
        refine ⟨grab_all_layers_inv hinv hcount hall hgrab, .inl ?_⟩
        rcases grab_all_layers_cases hinv hgrab with ⟨-, rfl, rfl⟩ | ⟨hfalse, -⟩
        · exact ⟨rfl, rfl, rfl, rfl, rfl⟩
        · cases hfalse
      · next hgrab =>
        cases h
        have hinv₁ := grab_all_layers_inv hinv hcount hall hgrab
        rcases grab_all_layers_cases hinv hgrab with ⟨htrue, -⟩ | ⟨-, rfl, rfl, -⟩
        · cases htrue
        · refine ⟨hinv₁, .inr ⟨by decide, rfl, ?_⟩⟩
          simp only [hearly, and_false, iff_false, Bool.not_eq_true]
          by_contra hg
          have := hinv₁.grabbedTypes (Bool.not_eq_false _ ▸ hg)
          simp [HwcomposerContext.cacheState] at this
  · rw [if_neg hoff] at h
    cases h
    refine ⟨init_layer_cache_inv hinv _, .inr ⟨by decide, rfl, ?_⟩⟩
    simp only [init_layer_cache_cleared hinv, Bool.false_eq_true, false_iff, not_and]
    rintro - ⟨hone, hrot, -⟩
    exact hoff ⟨hone, hrot⟩

/-- A prepare of a list is the cache part on the decided layers; around it only
`pending_rotation` of the cache state changes. -/
theorem prepare_of_list {f : Frame} {list : HwcLayerList} {p : Prepared}
    (hlist : f.list = some list) (h : hwcomposerPrepare ctx f = some p) :
    ∃ ctx₁ ctx₂ layers, ctx₁.cacheState = ctx.cacheState ∧
      cacheLayers f.mallocs ctx₁ (decidedLayers f.gralloc list) = some (ctx₂, layers, p.cache) ∧
      p.list = some { list with hwLayers := layers } ∧
      p.ctx.cacheState = if p.cache = .grabFailed then ctx₂.cacheState
        else { ctx₂.cacheState with pendingRotation := false } := by
  have hcache := decide_composition_cache f.gralloc { ctx with bypassOvly := false } list
  have hlayers := decide_composition_layers f.gralloc { ctx with bypassOvly := false } list
  obtain ⟨⟨ctx₁, layers₁, cmds⟩, hdecide⟩ :
      ∃ r, decideComposition f.gralloc { ctx with bypassOvly := false } list = r := ⟨_, rfl⟩
  simp only [hwcomposerPrepare, hlist, hdecide] at hcache hlayers h
  subst hlayers
  split at h
  · cases h
  · next ctx₂ layers hlook =>
    cases h
    exact ⟨ctx₁, ctx₂, layers, hcache, hlook, rfl, rfl⟩
  · next ctx₂ layers outcome hnot hlook =>
    cases h
    refine ⟨ctx₁, ctx₂, layers, hcache, hlook, rfl, ?_⟩
    have hout : outcome ≠ .grabFailed := hnot
    rw [if_neg hout]
    exact revert_resolution_cache _

theorem prepare_of_null {f : Frame} {p : Prepared} (hlist : f.list = none)
    (h : hwcomposerPrepare ctx f = some p) :
    p.list = none ∧ p.cache = .noList ∧ p.ctx.cacheState = ctx.cacheState := by
  simp only [hwcomposerPrepare, hlist] at h
  cases h
  exact ⟨rfl, rfl, revert_resolution_cache _⟩

theorem CacheInv.setPending {c : CacheState} (hinv : CacheInv c) (b : Bool) :
    CacheInv { c with pendingRotation := b } :=
  ⟨hinv.cacheSize, hinv.countFilled, hinv.typesSize, hinv.grabbedCache, hinv.grabbedTypes,
    hinv.grabbedCount⟩

theorem prepare_inv (hinv : CacheInv ctx.cacheState) {f : Frame} {p : Prepared}
    (h : hwcomposerPrepare ctx f = some p) : CacheInv p.ctx.cacheState := by
  cases hlist : f.list with
  | none =>
    rw [(prepare_of_null hlist h).2.2]
    exact hinv
  | some list =>
    obtain ⟨ctx₁, ctx₂, layers, hcache, hlook, -, hstate⟩ := prepare_of_list hlist h
    have hinv₂ := (cache_layers_cases (hcache.symm ▸ hinv) hlook).1
    rw [hstate]
    split_ifs
    · exact hinv₂
    · exact hinv₂.setPending false

theorem setparameter_inv (hinv : CacheInv ctx.cacheState) (param : HwcParam) (value : Int) :
    CacheInv (hwcomposerSetparameter ctx param value).1.cacheState := by
  cases param with
  | uiOrientation => exact hinv.setPending true
  | hardwareRotation => exact hinv.setPending true
  | hdmiPlugged => exact hinv
  | other => exact hinv

end Codinalte.Hwcomposer
