import Codinalte.Hwcomposer.Cache
import Codinalte.Lib.Machine

/-! The HDMI resolution: what one prepare asks of hdmid, and when the requests and the plugged
display stay in step over any sequence of prepares and parameters. -/

namespace Codinalte.Hwcomposer
open Codinalte.Machine

/-- Whether the list shows a video, where prepare looks for one. -/
def Frame.video (f : Frame) : Option Bool :=
  f.list.bind fun list =>
    if list.hwLayers.any (·.isSkip) || list.geometryChanged then
      some (list.hwLayers.any (isVideo f.gralloc))
    else none

/-- The HDMI resolution for the buffer of a layer. -/
def videoResolution (gralloc : Handle → GrallocBuf) (layer : HwcLayer) : CompdevRect :=
  let buf := gralloc (layer.handle.getD 0)
  getHdmiResolution (toU16 buf.width) (toU16 buf.height)

/-- The HDMI resolution for the first video of the list. -/
def Frame.preferred (f : Frame) : CompdevRect :=
  match f.list.bind fun list => list.hwLayers.find? (isVideo f.gralloc) with
  | none => ⟨0, 0⟩
  | some layer => videoResolution f.gralloc layer

/-- The cache hits and the composition types have to be saved in a new block. -/
def grabAllocates (ctx : HwcomposerContext) (f : Frame) : Bool :=
  match f.list with
  | none => false
  | some list =>
    let count := list.hwLayers.length
    count != 1 && !ctx.pendingRotation && decide (count ≤ cachedLayersSize) &&
      ctx.cachedLayersCount != 0 && ctx.cachedLayersCount == count &&
      ctx.cachedLayers.bind (scanCachedLayers · (decidedLayers f.gralloc list)) == some .hit &&
      !(ctx.actualCompositionTypes.isSome && ctx.actualCompositionTypesSize == count)

/-- Whether prepare takes its error exit. -/
def grabFails (ctx : HwcomposerContext) (f : Frame) : Bool := grabAllocates ctx f && !f.mallocs.grab

/-- The fields that prepare looks at for the resolution. -/
structure HdmiState where
  videoplayback : Bool
  settings : HwcHdmiSettings
deriving DecidableEq

def HwcomposerContext.hdmi (ctx : HwcomposerContext) : HdmiState :=
  ⟨ctx.videoplayback, ctx.hdmiSettings⟩

namespace HdmiState

/-- What the search for a video makes of the state, with the command it sends. -/
def look (s : HdmiState) (f : Frame) : HdmiState × List HdmidCommand :=
  match f.video with
  | none => (s, [])
  | some false => ({ s with videoplayback := false }, [])
  | some true =>
    if s.settings.resolutionchanged || !s.settings.hdmiPlugged then
      ({ s with videoplayback := true }, [])
    else (⟨true, true, true, f.preferred⟩, [.preferredResolution f.preferred])

/-- What the end of prepare makes of it. -/
def revert (s : HdmiState) : HdmiState × List HdmidCommand :=
  if (!s.videoplayback || !s.settings.hdmiPlugged) && s.settings.resolutionchanged then
    ({ s with settings := { s.settings with resolutionchanged := false, res := ⟨0, 0⟩ } },
      if s.settings.hdmiPlugged then [.defaultResolution] else [])
  else (s, [])

/-- The resolution is kept exactly while a request is. -/
def Consistent (s : HdmiState) : Prop :=
  s.settings.res = ⟨0, 0⟩ ↔ s.settings.resolutionchanged = false

end HdmiState

variable {ctx ctx' : HwcomposerContext} {layers layers' : List HwcLayer} {mallocs : Mallocs}

theorem hdmi_resolution_ne_zero (width height : Nat) : getHdmiResolution width height ≠ ⟨0, 0⟩ := by
  intro hzero
  have hwidth : (getHdmiResolution width height).width = 0 := by rw [hzero]
  unfold getHdmiResolution at hwidth
  split_ifs at hwidth

/-- With a request outstanding, or nobody to send it to, the search asks for nothing. -/
theorem find_video_quiet (gralloc : Handle → GrallocBuf) (ctx : HwcomposerContext)
    (layers : List HwcLayer)
    (hquiet : ctx.hdmiSettings.resolutionchanged = true ∨ ctx.hdmiSettings.hdmiPlugged = false) :
    (findVideo gralloc ctx layers).1.hdmi =
        ⟨ctx.videoplayback || layers.any (isVideo gralloc), ctx.hdmiSettings⟩ ∧
      (findVideo gralloc ctx layers).2 = [] := by
  have hskip : (ctx.hdmiSettings.resolutionchanged || !ctx.hdmiSettings.hdmiPlugged) = true := by
    rcases hquiet with h | h <;> rw [h]
    · rfl
    · exact Bool.or_true _
  induction layers with
  | nil =>
    rw [List.any_nil, Bool.or_false]
    exact ⟨rfl, rfl⟩
  | cons layer rest ih =>
    rw [findVideo, List.any_cons]
    cases hvideo : isVideo gralloc layer with
    | true =>
      rw [if_pos rfl]
      dsimp only
      rw [if_pos hskip, Bool.true_or, Bool.or_true]
      exact ⟨rfl, rfl⟩
    | false =>
      rw [if_neg Bool.false_ne_true, Bool.false_or]
      exact ih

/-- With no request outstanding the search asks for the resolution of the first video. -/
theorem find_video_asks (gralloc : Handle → GrallocBuf) (ctx : HwcomposerContext)
    (layers : List HwcLayer) (hchanged : ctx.hdmiSettings.resolutionchanged = false)
    (hplugged : ctx.hdmiSettings.hdmiPlugged = true) (hres : ctx.hdmiSettings.res = ⟨0, 0⟩) :
    (findVideo gralloc ctx layers).1.hdmi =
        (match layers.find? (isVideo gralloc) with
          | none => ctx.hdmi
          | some layer => ⟨true, true, true, videoResolution gralloc layer⟩) ∧
      (findVideo gralloc ctx layers).2 =
        (match layers.find? (isVideo gralloc) with
          | none => []
          | some layer => [.preferredResolution (videoResolution gralloc layer)]) := by
  have hgo : ¬ (ctx.hdmiSettings.resolutionchanged || !ctx.hdmiSettings.hdmiPlugged) = true := by
    rw [hchanged, hplugged]
    exact Bool.false_ne_true
  induction layers with
  | nil => exact ⟨rfl, rfl⟩
  | cons layer rest ih =>
    rw [findVideo]
    cases hvideo : isVideo gralloc layer with
    | true =>
      have hask : ctx.hdmiSettings.res ≠ videoResolution gralloc layer := by
        rw [hres]
        exact (hdmi_resolution_ne_zero _ _).symm
      obtain ⟨hrest, hnone⟩ := find_video_quiet gralloc
        { ctx with videoplayback := true, hdmiSettings :=
          { ctx.hdmiSettings with
            res := videoResolution gralloc layer, resolutionchanged := true } }
        rest (.inl rfl)
      rw [List.find?_cons_of_pos hvideo, if_pos rfl]
      unfold videoResolution at hask hrest hnone ⊢
      dsimp only
      rw [if_neg hgo, if_pos hask]
      constructor
      · refine hrest.trans ?_
        show (⟨true, ctx.hdmiSettings.hdmiPlugged, true, _⟩ : HdmiState) = _
        rw [hplugged]
      · exact congrArg (_ :: ·) hnone
    | false =>
      rw [List.find?_cons_of_neg (by rw [hvideo]; exact Bool.false_ne_true),
        if_neg Bool.false_ne_true]
      exact ih

theorem find_video_look {f : Frame} {list : HwcLayerList} (hlist : f.list = some list)
    (hlook : (list.hwLayers.any (·.isSkip) || list.geometryChanged) = true)
    (hconsistent : ctx.hdmi.Consistent) :
    ((findVideo f.gralloc { ctx with videoplayback := false } list.hwLayers).1.hdmi,
      (findVideo f.gralloc { ctx with videoplayback := false } list.hwLayers).2) =
      ctx.hdmi.look f := by
  have hvideo : f.video = some (list.hwLayers.any (isVideo f.gralloc)) := by
    unfold Frame.video
    rw [hlist]
    exact if_pos hlook
  have hpreferred : f.preferred = match list.hwLayers.find? (isVideo f.gralloc) with
      | none => ⟨0, 0⟩
      | some layer => videoResolution f.gralloc layer := by
    unfold Frame.preferred
    rw [hlist]
    rfl
  unfold HdmiState.look
  rw [hvideo]
  by_cases hquiet : (ctx.hdmi.settings.resolutionchanged || !ctx.hdmi.settings.hdmiPlugged) = true
  · have hor : ctx.hdmi.settings.resolutionchanged = true ∨
        ctx.hdmi.settings.hdmiPlugged = false := by simpa using hquiet
    obtain ⟨hstate, hnone⟩ := find_video_quiet f.gralloc { ctx with videoplayback := false }
      list.hwLayers hor
    rw [hstate, hnone]
    cases hany : list.hwLayers.any (isVideo f.gralloc) with
    | true =>
      dsimp only
      rw [if_pos hquiet]
      rfl
    | false => rfl
  · obtain ⟨hchanged, hplugged⟩ : ctx.hdmi.settings.resolutionchanged = false ∧
        ctx.hdmi.settings.hdmiPlugged = true := by simpa using hquiet
    obtain ⟨hstate, hcmds⟩ := find_video_asks f.gralloc { ctx with videoplayback := false }
      list.hwLayers hchanged hplugged (hconsistent.mpr hchanged)
    rw [hstate, hcmds]
    cases hfind : list.hwLayers.find? (isVideo f.gralloc) with
    | none =>
      have hany : list.hwLayers.any (isVideo f.gralloc) = false := by
        rw [List.any_eq_false]
        exact List.find?_eq_none.mp hfind
      rw [hany]
      rfl
    | some layer =>
      have hany : list.hwLayers.any (isVideo f.gralloc) = true :=
        List.any_eq_true.mpr ⟨layer, List.mem_of_find?_eq_some hfind, List.find?_some hfind⟩
      rw [hany]
      dsimp only
      rw [if_neg hquiet, hpreferred, hfind]

theorem decide_layers_hdmi (gralloc : Handle → GrallocBuf) (ctx : HwcomposerContext)
    (layers : List HwcLayer) : (decideLayers gralloc ctx layers).1.hdmi = ctx.hdmi := by
  cases layers with
  | nil => rfl
  | cons layer rest =>
    simp only [decideLayers]
    split_ifs <;> rfl

theorem init_layer_cache_hdmi (malloc : Bool) (ctx : HwcomposerContext) :
    (initLayerCacheLocked malloc ctx).hdmi = ctx.hdmi := by
  unfold initLayerCacheLocked
  split_ifs <;> rfl

theorem populate_cached_layer_hdmi {malloc : Bool}
    (h : populateCachedLayerLocked malloc ctx layers = some ctx') : ctx'.hdmi = ctx.hdmi := by
  obtain ⟨blk, -, rfl⟩ := Option.map_eq_some_iff.mp h
  exact init_layer_cache_hdmi malloc ctx

theorem check_cached_layers_hdmi {hit : Bool}
    (h : checkCachedLayersLocked mallocs ctx layers = some (ctx', hit)) : ctx'.hdmi = ctx.hdmi := by
  unfold checkCachedLayersLocked at h
  obtain ⟨start, hstart⟩ : ∃ start, (if ctx.cachedLayers.isNone then
    initLayerCacheLocked mallocs.check ctx else ctx) = start := ⟨_, rfl⟩
  have hsame : start.hdmi = ctx.hdmi := by
    rw [← hstart]
    split_ifs
    · exact init_layer_cache_hdmi _ _
    · rfl
  have hpopulate : ∀ {r}, (populateCachedLayerLocked mallocs.populate start layers).map (·, false) =
      some (ctx', r) → ctx'.hdmi = ctx.hdmi := by
    intro r hr
    obtain ⟨ctx₁, hpop, heq⟩ := Option.map_eq_some_iff.mp hr
    cases heq
    exact (populate_cached_layer_hdmi hpop).trans hsame
  dsimp only at h
  rw [hstart] at h
  split_ifs at h
  · cases h
    exact hsame
  · exact hpopulate h
  · split at h
    · cases h
    · cases h
      exact hsame
    · exact hpopulate h
    · cases h
      exact hsame

theorem grab_all_layers_hdmi {malloc ok : Bool}
    (h : grabAllLayersLocked malloc ctx layers = some (ctx', layers', ok)) :
    ctx'.hdmi = ctx.hdmi := by
  unfold grabAllLayersLocked at h
  obtain ⟨freed, hfreed⟩ : ∃ freed, (if ctx.actualCompositionTypesSize ≠ layers.length ∧
      ctx.actualCompositionTypes.isSome then
    { ctx with actualCompositionTypes := none, actualCompositionTypesSize := 0 } else ctx) =
      freed := ⟨_, rfl⟩
  have hsame : freed.hdmi = ctx.hdmi := by
    rw [← hfreed]
    split_ifs <;> rfl
  rw [← hsame]
  dsimp only at h
  rw [hfreed] at h
  split_ifs at h
  · cases h
    rfl
  · obtain ⟨blk, -, heq⟩ := Option.map_eq_some_iff.mp h
    cases heq
    rfl
  · cases h
    rfl
  all_goals
    obtain ⟨blk, -, heq⟩ := Option.map_eq_some_iff.mp h
    cases heq
    rfl

theorem cache_layers_hdmi {outcome : CacheOutcome}
    (h : cacheLayers mallocs ctx layers = some (ctx', layers', outcome)) :
    ctx'.hdmi = ctx.hdmi := by
  unfold cacheLayers at h
  split_ifs at h
  · split at h
    · cases h
    next hcheck =>
      cases h
      exact check_cached_layers_hdmi hcheck
    next hcheck =>
      have hsame := check_cached_layers_hdmi hcheck
      split at h
      · cases h
      next hgrab =>
        cases h
        exact (grab_all_layers_hdmi hgrab).trans hsame
      next hgrab =>
        cases h
        exact (grab_all_layers_hdmi hgrab).trans hsame
  · cases h
    exact init_layer_cache_hdmi _ _

theorem grab_all_layers_fails {malloc ok : Bool}
    (h : grabAllLayersLocked malloc ctx layers = some (ctx', layers', ok)) :
    ok = false ↔ ¬ (ctx.actualCompositionTypes.isSome = true ∧
      ctx.actualCompositionTypesSize = layers.length) ∧ malloc = false := by
  by_cases hkept : ctx.actualCompositionTypes.isSome = true ∧
      ctx.actualCompositionTypesSize = layers.length
  · obtain ⟨blk, hblk⟩ := Option.isSome_iff_exists.mp hkept.1
    simp only [grabAllLayersLocked, hkept.2, ne_eq, not_true_eq_false, false_and, if_false, hblk,
      Option.isNone_some, Bool.false_eq_true] at h
    obtain ⟨saved, -, heq⟩ := Option.map_eq_some_iff.mp h
    cases heq
    exact ⟨fun h => absurd h.symm Bool.false_ne_true, fun hno => absurd hkept hno.1⟩
  · have hnone : (if ctx.actualCompositionTypesSize ≠ layers.length ∧
        ctx.actualCompositionTypes.isSome then
        { ctx with actualCompositionTypes := none, actualCompositionTypesSize := 0 }
        else ctx).actualCompositionTypes = none := by
      split_ifs with hfree
      · rfl
      · by_contra hsome
        have hkeeps := Option.isSome_iff_ne_none.mpr hsome
        exact hkept ⟨hkeeps, by_contra fun hne => hfree ⟨hne, hkeeps⟩⟩
    cases malloc with
    | false =>
      simp only [grabAllLayersLocked, hnone, Option.isNone_none, if_true, Bool.false_eq_true,
        if_false, Option.some.injEq, Prod.mk.injEq] at h
      exact ⟨fun _ => ⟨hkept, rfl⟩, fun _ => h.2.2.symm⟩
    | true =>
      simp only [grabAllLayersLocked, hnone, Option.isNone_none, if_true, Option.isNone_some,
        Bool.false_eq_true, if_false] at h
      obtain ⟨saved, -, heq⟩ := Option.map_eq_some_iff.mp h
      cases heq
      exact ⟨fun h => absurd h.symm Bool.false_ne_true,
        fun hno => absurd hno.2.symm Bool.false_ne_true⟩

theorem cache_layers_fails (hinv : CacheInv ctx.cacheState) {outcome : CacheOutcome}
    (h : cacheLayers mallocs ctx layers = some (ctx', layers', outcome)) :
    outcome = .grabFailed ↔
      layers.length ≠ 1 ∧ ctx.pendingRotation = false ∧ layers.length ≤ cachedLayersSize ∧
        ctx.cachedLayersCount ≠ 0 ∧ ctx.cachedLayersCount = layers.length ∧
        ctx.cachedLayers.bind (scanCachedLayers · layers) = some .hit ∧
        ¬ (ctx.actualCompositionTypes.isSome ∧ ctx.actualCompositionTypesSize = layers.length) ∧
        mallocs.grab = false := by
  unfold cacheLayers at h
  by_cases hoff : layers.length ≠ 1 ∧ ctx.pendingRotation = false
  · rw [if_pos hoff] at h
    split at h
    · cases h
    next hcheck =>
      cases h
      constructor
      · exact fun h => nomatch h
      · rintro ⟨-, -, hsize, hcount, hlength, hhit, -⟩
        rcases check_cached_layers_cases hinv hcheck with ⟨hlong, -⟩ | ⟨-, -, -, -, -, -, hmiss⟩ |
          ⟨-, -, -, htrue, -⟩ | ⟨-, -, -, -, -, hscan⟩
        · omega
        · rcases hmiss with hzero | hother | hscan
          · exact absurd hzero hcount
          · exact absurd hlength hother
          · rw [hhit] at hscan
            cases hscan
        · cases htrue
        · rw [hhit] at hscan
          cases hscan
    next hcheck =>
      rcases check_cached_layers_cases hinv hcheck with ⟨-, hfalse, -⟩ | ⟨-, hfalse, -⟩ |
        ⟨hsize, hcount, hlength, -, rfl, hscan⟩ | ⟨-, -, -, hfalse, -⟩
      · cases hfalse
      · cases hfalse
      · split at h
        · cases h
        next hgrab =>
          cases h
          exact ⟨(fun h => nomatch h), fun hall =>
            absurd ((grab_all_layers_fails hgrab).mpr hall.2.2.2.2.2.2) fun h => nomatch h⟩
        next hgrab =>
          cases h
          obtain ⟨hkept, hmalloc⟩ := (grab_all_layers_fails hgrab).mp rfl
          exact ⟨fun _ => ⟨hoff.1, hoff.2, hsize, hcount, hlength, hscan, hkept, hmalloc⟩,
            fun _ => rfl⟩
      · cases hfalse
  · rw [if_neg hoff] at h
    cases h
    constructor
    · exact fun h => nomatch h
    · rintro ⟨hone, hrotation, -⟩
      exact absurd ⟨hone, hrotation⟩ hoff

theorem grab_fails_iff (hinv : CacheInv ctx.cacheState) {f : Frame} {p : Prepared}
    (h : hwcomposerPrepare ctx f = some p) : p.cache = .grabFailed ↔ grabFails ctx f = true := by
  cases hlist : f.list with
  | none =>
    rw [(prepare_of_null hlist h).2.1]
    unfold grabFails grabAllocates
    rw [hlist]
    exact ⟨(fun h => nomatch h), fun h => nomatch h⟩
  | some list =>
    obtain ⟨ctx₁, ctx₂, layers, hcache, hlook, -⟩ := prepare_of_list hlist h
    rw [cache_layers_fails (hcache ▸ hinv) hlook]
    have hlength : (decidedLayers f.gralloc list).length = list.hwLayers.length :=
      decide_composition_length ..
    have hpending : ctx₁.pendingRotation = ctx.pendingRotation :=
      congrArg CacheState.pendingRotation hcache
    have hcached : ctx₁.cachedLayers = ctx.cachedLayers := congrArg CacheState.cachedLayers hcache
    have hcount : ctx₁.cachedLayersCount = ctx.cachedLayersCount :=
      congrArg CacheState.cachedLayersCount hcache
    have htypes : ctx₁.actualCompositionTypes = ctx.actualCompositionTypes :=
      congrArg CacheState.actualCompositionTypes hcache
    have hsize : ctx₁.actualCompositionTypesSize = ctx.actualCompositionTypesSize :=
      congrArg CacheState.actualCompositionTypesSize hcache
    rw [hlength, hpending, hcached, hcount, htypes, hsize]
    unfold grabFails grabAllocates
    rw [hlist]
    simp only [Bool.and_eq_true, bne_iff_ne, ne_eq, Bool.not_eq_true', decide_eq_true_eq,
      beq_iff_eq, and_assoc, Bool.and_eq_false_imp, not_and, beq_eq_false_iff_ne]

theorem decide_composition_look {f : Frame} {list : HwcLayerList} (hlist : f.list = some list)
    (hconsistent : ctx.hdmi.Consistent) :
    ((decideComposition f.gralloc ctx list).1.hdmi, (decideComposition f.gralloc ctx list).2.2) =
      ctx.hdmi.look f := by
  unfold decideComposition
  split_ifs with hlook
  · rw [← find_video_look hlist hlook hconsistent]
    dsimp only
    rw [decide_layers_hdmi]
  · have hvideo : f.video = none := by
      unfold Frame.video
      rw [hlist]
      exact if_neg hlook
    unfold HdmiState.look
    rw [hvideo]

theorem revert_resolution_hdmi (ctx : HwcomposerContext) :
    ((revertResolution ctx).1.hdmi, (revertResolution ctx).2) = ctx.hdmi.revert := by
  unfold revertResolution HdmiState.revert
  by_cases hrevert : ((!ctx.videoplayback || !ctx.hdmiSettings.hdmiPlugged) &&
      ctx.hdmiSettings.resolutionchanged) = true
  · rw [if_pos hrevert]
    exact (if_pos hrevert).symm
  · rw [if_neg hrevert]
    exact (if_neg hrevert).symm

/-- A prepare looks for a video and, but for its error exit, takes back what is not needed. -/
theorem prepare_hdmi {f : Frame} {p : Prepared} (hconsistent : ctx.hdmi.Consistent)
    (h : hwcomposerPrepare ctx f = some p) :
    (p.cache = .grabFailed → (p.ctx.hdmi, p.hdmid) = ctx.hdmi.look f) ∧
      (p.cache ≠ .grabFailed → p.ctx.hdmi = (ctx.hdmi.look f).1.revert.1 ∧
        p.hdmid = (ctx.hdmi.look f).2 ++ (ctx.hdmi.look f).1.revert.2) := by
  cases hlist : f.list with
  | none =>
    have hlook : ctx.hdmi.look f = (ctx.hdmi, []) := by
      unfold HdmiState.look Frame.video
      rw [hlist]
      rfl
    have hrevert := revert_resolution_hdmi { ctx with bypassOvly := false }
    simp only [hwcomposerPrepare, hlist] at h
    cases h
    refine ⟨fun h => (by cases h), fun _ => ?_⟩
    rw [hlook]
    exact ⟨congrArg Prod.fst hrevert, congrArg Prod.snd hrevert⟩
  | some list =>
    obtain ⟨⟨ctx₁, layers₁, cmds⟩, hdecide⟩ :
        ∃ r, decideComposition f.gralloc { ctx with bypassOvly := false } list = r := ⟨_, rfl⟩
    have hlook : ctx.hdmi.look f = (ctx₁.hdmi, cmds) := by
      have hsearch : ((decideComposition f.gralloc { ctx with bypassOvly := false } list).1.hdmi,
          (decideComposition f.gralloc { ctx with bypassOvly := false } list).2.2) =
          ctx.hdmi.look f := decide_composition_look hlist hconsistent
      rw [hdecide] at hsearch
      exact hsearch.symm
    rw [hlook]
    simp only [hwcomposerPrepare, hlist, hdecide] at h
    split at h
    · cases h
    next ctx₂ layers hcache =>
      cases h
      have hsame := cache_layers_hdmi hcache
      exact ⟨fun _ => by rw [← hsame], fun hne => absurd rfl hne⟩
    next ctx₂ layers outcome hnot hcache =>
      cases h
      have hsame := cache_layers_hdmi hcache
      have hrevert := revert_resolution_hdmi { ctx₂ with pendingRotation := false }
      refine ⟨fun heq => absurd heq hnot, fun _ => ?_⟩
      dsimp only
      rw [← hsame]
      exact ⟨congrArg Prod.fst hrevert, congrArg (cmds ++ ·) (congrArg Prod.snd hrevert)⟩

end Codinalte.Hwcomposer
