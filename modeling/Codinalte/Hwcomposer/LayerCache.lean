import Codinalte.Hwcomposer.Grab

/-! What a full cache hit shows: the framebuffer of the last frame that the GPU composed, in
place of a composition of the current frame. The runs of `Codinalte.Hwcomposer.Grab` carry that
framebuffer along. -/

namespace Codinalte.Hwcomposer
open Codinalte.Machine

/-- What the GPU paints of a list: nothing at the position of an overlay. -/
def gpuPicture (layers : List HwcLayer) : List (Option (Option Handle)) :=
  layers.map fun layer => if layer.isOverlay then none else some layer.handle

/-- A run with the layers of the last GPU job, whether a changed geometry was announced after
it, and the layers that the previous prepare decided. -/
structure Shown where
  session : Session
  framebuffer : Option (List HwcLayer)
  changed : Bool
  previous : List HwcLayer

def Shown.opened : Shown := ⟨.opened, none, false, []⟩

def Frame.geometryChanged (frame : Frame) : Bool := frame.list.any (·.geometryChanged)

def Frame.decided (frame : Frame) : List HwcLayer :=
  match frame.list with
  | none => []
  | some list => decidedLayers frame.gralloc list

def Shown.step (s : Shown) (call : Call) : Option Shown :=
  (s.session.step call).bind fun session =>
    match call, s.session.pending with
    | .prepare frame, _ =>
      some { s with
        session := session
        changed := s.changed || frame.geometryChanged
        previous := frame.decided }
    | .setparameter _ _, _ => some { s with session := session }
    | .set _, none => none
    | .set env, some q =>
      (hwcomposerSet s.session.ctx env q.prepared.list).map fun r =>
        if r.gpuJob then
          { s with
            session := session
            framebuffer := some ((r.list.map (·.hwLayers)).getD [])
            changed := false }
        else { s with session := session }

/-- The cached handles are those of the layers that are left to the GPU. -/
def agrees : List (Option Handle) → List HwcLayer → Prop
  | _, [] => True
  | [], _ :: _ => False
  | cached :: blk, layer :: rest =>
    (layer.isOverlay = false → layer.handle = cached) ∧ agrees blk rest

/-- The cache is in use for lists of this length and holds the handles of this one. -/
def reusable (c : CacheState) (layers : List HwcLayer) : Prop :=
  c.cachedLayersCount ≠ 0 ∧ c.cachedLayersCount = layers.length ∧ layers.length ≠ 1 ∧
    c.pendingRotation = false ∧ (∀ layer ∈ layers, layer.handle.isSome ∧ !layer.isSkip) ∧
    ∃ blk ∈ c.cachedLayers, agrees blk layers

/-- The condition on one call: where the cache could be reused the list announces no changed
geometry and keeps the overlays of the previous prepare. Lists have at most 16 layers, and no
layer is a background layer. -/
def keepsFramebuffer (s : Shown) : Call → Prop
  | .prepare frame =>
    (∃ list, frame.list = some list ∧ list.hwLayers.length ≤ cachedLayersSize) ∧
    (∀ layer ∈ frame.decided,
      layer.compositionType = hwcFramebuffer ∨ layer.compositionType = hwcOverlay) ∧
    (reusable s.session.ctx.cacheState frame.decided → frame.geometryChanged = false ∧
      frame.decided.map (·.isOverlay) = s.previous.map (·.isOverlay))
  | _ => True

/-- The framebuffer is the composition of the GPU layers of `layers`, if there are any. -/
def Shown.shows (s : Shown) (layers : List HwcLayer) : Prop :=
  (∃ layer ∈ layers, layer.isOverlay = false) →
    ∃ fb, s.framebuffer = some fb ∧ s.changed = false ∧ gpuPicture fb = gpuPicture layers

theorem scan_hit_agrees {blk : List (Option Handle)} {layers : List HwcLayer}
    (h : scanCachedLayers blk layers = some .hit) :
    agrees blk layers ∧ ∀ layer ∈ layers, layer.handle.isSome ∧ !layer.isSkip := by
  induction layers generalizing blk with
  | nil => exact ⟨by cases blk <;> trivial, by simp⟩
  | cons layer rest ih =>
    cases blk with
    | nil => simp [scanCachedLayers] at h
    | cons cached blk =>
      simp only [scanCachedLayers] at h
      split_ifs at h with hthere hover hsame
      · obtain ⟨hagree, hall⟩ := ih h
        simp only [Bool.and_eq_true] at hthere
        refine ⟨⟨by simp [hover], hagree⟩, ?_⟩
        rintro l (_ | ⟨_, hl⟩)
        · exact hthere
        · exact hall l hl
      · obtain ⟨hagree, hall⟩ := ih h
        simp only [Bool.and_eq_true] at hthere
        refine ⟨⟨fun _ => hsame, hagree⟩, ?_⟩
        rintro l (_ | ⟨_, hl⟩)
        · exact hthere
        · exact hall l hl
      · cases h
      · cases h

theorem agrees_handles (layers : List HwcLayer) (blk : List (Option Handle)) :
    agrees (layers.map (·.handle) ++ blk) layers := by
  induction layers with
  | nil => cases blk <;> trivial
  | cons layer rest ih => exact ⟨fun _ => rfl, ih⟩

/-- Two lists that agree with the same cache and have the same overlays look the same. -/
theorem picture_of_agrees {blk : List (Option Handle)} {layers layers' : List HwcLayer}
    (h : agrees blk layers) (h' : agrees blk layers')
    (hover : layers.map (·.isOverlay) = layers'.map (·.isOverlay)) :
    gpuPicture layers = gpuPicture layers' := by
  induction layers generalizing blk layers' with
  | nil =>
    cases layers' with
    | nil => rfl
    | cons layer' rest' => simp at hover
  | cons layer rest ih =>
    cases layers' with
    | nil => simp at hover
    | cons layer' rest' =>
      cases blk with
      | nil => exact h.elim
      | cons cached blk =>
        simp only [List.map_cons, List.cons.injEq] at hover
        have hrest : gpuPicture rest = gpuPicture rest' := ih h.2 h'.2 hover.2
        have hhead : layer.isOverlay = false → layer.handle = layer'.handle := by
          intro hgpu
          rw [h.1 hgpu, h'.1 (hover.1 ▸ hgpu)]
        unfold gpuPicture at hrest ⊢
        rw [List.map_cons, List.map_cons, hrest, ← hover.1]
        cases hgpu : layer.isOverlay with
        | true => rfl
        | false => rw [hhead hgpu]

/-- A layer left to the GPU keeps the list from going to compdev as a whole. -/
theorem compdev_count_lt {layers : List HwcLayer} (frame : HwcRect) (count : Nat)
    (h : ∃ layer ∈ layers, layer.compositionType = hwcFramebuffer) :
    (countCompdevLayers frame count layers).2 < count + layers.length := by
  induction layers generalizing frame count with
  | nil => simp at h
  | cons layer rest ih =>
    by_cases hfb : layer.compositionType = hwcFramebuffer
    · simp [countCompdevLayers, hfb]
    · have hrest : ∃ l ∈ rest, l.compositionType = hwcFramebuffer := by
        obtain ⟨l, hl, hlfb⟩ := h
        rcases List.mem_cons.mp hl with rfl | hl
        · exact absurd hlfb hfb
        · exact ⟨l, hl, hlfb⟩
      simp only [countCompdevLayers, if_neg hfb, List.length_cons]
      cases layer.visibleRegionScreen.rects with
      | none =>
        have := ih frame count hrest
        simp only
        omega
      | some rects =>
        simp only
        split_ifs
        · have := ih (rects.foldl (growFrameRect layer.transform) frame) (count + 1) hrest
          omega
        · have := ih frame count hrest
          omega

theorem init_layer_cache_count {ctx : HwcomposerContext} (hinv : CacheInv ctx.cacheState)
    (malloc : Bool) : (initLayerCacheLocked malloc ctx).cachedLayersCount = 0 := by
  rcases init_layer_cache_cases hinv malloc with hinit | ⟨hinit, -, hcount, -⟩
  · rw [hinit]
  · rw [hinit, hcount]

/-- The three things that can become of the cache: out of use, filled from this list, or hit. -/
theorem cache_layers_content {ctx ctx' : HwcomposerContext} {mallocs : Mallocs}
    {layers layers' : List HwcLayer} {outcome : CacheOutcome}
    (hinv : CacheInv ctx.cacheState) (hsize : layers.length ≤ cachedLayersSize)
    (h : cacheLayers mallocs ctx layers = some (ctx', layers', outcome)) :
    (outcome.isHit = false ∧ ctx'.cachedLayersCount = 0) ∨
    (outcome.isHit = false ∧ ctx'.grabbedAllLayers = false ∧
      (∃ layer ∈ layers, layer.isOverlay = true) ∧
      ∃ blk ∈ ctx'.cachedLayers, agrees blk layers) ∨
    (outcome.isHit = true ∧ ctx'.cachedLayersCount = ctx.cachedLayersCount ∧
      ctx'.cachedLayers = ctx.cachedLayers ∧ reusable ctx.cacheState layers) := by
  unfold cacheLayers at h
  by_cases hoff : layers.length ≠ 1 ∧ ctx.pendingRotation = false
  · rw [if_pos hoff] at h
    cases hcheck : checkCachedLayersLocked mallocs ctx layers with
    | none => simp [hcheck] at h
    | some r =>
      obtain ⟨ctx₁, hit⟩ := r
      rcases check_cached_layers_cases hinv hcheck with
        ⟨hlen, -⟩ | ⟨-, rfl, ctx₀, hinv₀, -, hpop, -⟩ |
        ⟨-, hcount, hall, rfl, rfl, hscan⟩ | ⟨-, -, -, rfl, rfl, -⟩
      · omega
      · -- populated
        simp only [hcheck, Option.some.injEq, Prod.mk.injEq] at h
        obtain ⟨rfl, rfl, rfl⟩ := h
        rcases populate_cached_layer_cases hinv₀ hsize hpop with rfl | ⟨-, rfl, -, hcount, -⟩
        · by_cases hover : layers.any (·.isOverlay) = true
          · obtain ⟨layer, hlayer, hl⟩ := List.any_eq_true.mp hover
            exact .inr (.inl ⟨rfl, rfl, ⟨layer, hlayer, hl⟩, _, rfl, agrees_handles _ _⟩)
          · exact .inl ⟨rfl, if_neg hover⟩
        · exact .inl ⟨rfl, hcount⟩
      · -- hit
        right; right
        obtain ⟨blk, hblk, hscan⟩ := Option.bind_eq_some_iff.mp hscan
        obtain ⟨hagree, hthere⟩ := scan_hit_agrees hscan
        have hreuse : reusable ctx₁.cacheState layers :=
          ⟨hcount, hall, hoff.1, hoff.2, hthere, blk, hblk, hagree⟩
        rw [hcheck] at h
        split at h
        · cases h
        · next heq => cases heq
        · next heq =>
          cases heq
          split at h
          · cases h
          · next hgrab =>
            cases h
            rcases grab_all_layers_cases hinv hgrab with ⟨-, -, rfl⟩ | ⟨hfalse, -⟩
            · exact ⟨rfl, rfl, rfl, hreuse⟩
            · cases hfalse
          · next hgrab =>
            cases h
            rcases grab_all_layers_cases hinv hgrab with ⟨htrue, -⟩ | ⟨-, -, rfl, -⟩
            · cases htrue
            · exact ⟨rfl, rfl, rfl, hreuse⟩
      · -- a NULL or skip layer
        simp only [hcheck, Option.some.injEq, Prod.mk.injEq] at h
        obtain ⟨rfl, rfl, rfl⟩ := h
        exact .inl ⟨rfl, rfl⟩
  · rw [if_neg hoff] at h
    cases h
    exact .inl ⟨rfl, init_layer_cache_count hinv _⟩

/-- While the cache is in use it holds the previous frame, and the framebuffer shows it, or is
about to: the set of a frame that filled the cache has the flag cleared. -/
structure ShownInv (s : Shown) : Prop where
  session : SessionInv s.session
  typed : ∀ layer ∈ s.previous,
    layer.compositionType = hwcFramebuffer ∨ layer.compositionType = hwcOverlay
  filled : s.session.ctx.cachedLayersCount ≠ 0 →
    (∃ layer ∈ s.previous, layer.isOverlay = true) ∧
    ∃ blk ∈ s.session.ctx.cachedLayers, agrees blk s.previous
  composed : s.session.pending = none → s.session.ctx.cachedLayersCount ≠ 0 →
    s.shows s.previous
  decided : ∀ q ∈ s.session.pending, q.frame.decided = s.previous
  hit : ∀ q ∈ s.session.pending, q.prepared.cache.isHit = true →
    s.session.ctx.cachedLayersCount ≠ 0 ∧ s.shows s.previous
  missed : ∀ q ∈ s.session.pending, q.prepared.cache.isHit = false →
    s.session.ctx.cachedLayersCount ≠ 0 → s.session.ctx.grabbedAllLayers = false

theorem shown_inv_opened : ShownInv Shown.opened := by
  constructor <;> simp [Shown.opened, Session.opened, HwcomposerContext.opened]
  exact session_inv_opened

theorem shows_same_picture {s : Shown} {layers layers' : List HwcLayer} (h : s.shows layers)
    (hover : layers'.map (·.isOverlay) = layers.map (·.isOverlay))
    (hpicture : gpuPicture layers' = gpuPicture layers) : s.shows layers' := by
  rintro ⟨layer, hlayer, hgpu⟩
  have hmem : false ∈ layers.map (·.isOverlay) := by
    rw [← hover, ← hgpu]
    exact List.mem_map_of_mem hlayer
  obtain ⟨layer', hlayer', hgpu'⟩ := List.mem_map.mp hmem
  obtain ⟨fb, hfb, hsame, heq⟩ := h ⟨layer', hlayer', hgpu'⟩
  exact ⟨fb, hfb, hsame, heq.trans hpicture.symm⟩

theorem shown_inv_prepare {s : Shown} (hinv : ShownInv s) {frame : Frame}
    (hok : keepsFramebuffer s (.prepare frame)) (hpending : s.session.pending = none)
    {p : Prepared} (hp : hwcomposerPrepare s.session.ctx frame = some p) :
    ShownInv { s with
      session := ⟨p.ctx, some ⟨s.session.ctx, frame, p⟩⟩
      changed := s.changed || frame.geometryChanged
      previous := frame.decided } := by
  obtain ⟨⟨list, hlist, hsize⟩, htyped, hkeep⟩ := hok
  have hdecided : frame.decided = decidedLayers frame.gralloc list := by
    simp [Frame.decided, hlist]
  have hsession : SessionInv ⟨p.ctx, some ⟨s.session.ctx, frame, p⟩⟩ :=
    session_inv_step s.session (.prepare frame) _ hinv.session
      (by simp [Session.step, hpending, hp])
  obtain ⟨ctx₁, ctx₂, layers, hstate₁, hlook, -, hstate⟩ := prepare_of_list hlist hp
  have hcount : p.ctx.cachedLayersCount = ctx₂.cachedLayersCount := by
    have := congrArg CacheState.cachedLayersCount hstate
    split_ifs at this <;> exact this
  have hcached : p.ctx.cachedLayers = ctx₂.cachedLayers := by
    have := congrArg CacheState.cachedLayers hstate
    split_ifs at this <;> exact this
  have hflag : p.ctx.grabbedAllLayers = ctx₂.grabbedAllLayers := by
    have := congrArg CacheState.grabbedAllLayers hstate
    split_ifs at this <;> exact this
  have hlen : (decidedLayers frame.gralloc list).length ≤ cachedLayersSize := by
    rw [← decide_composition_layers _ s.session.ctx, decide_composition_length]
    exact hsize
  rw [← hdecided] at hlook hlen
  rcases cache_layers_content (hstate₁.symm ▸ hinv.session.cache) hlen hlook with
    ⟨hmiss, hzero⟩ | ⟨hmiss, hclear, hover, hblk⟩ | ⟨hhit, hsame, hblk, hreuse⟩
  · constructor <;> simp [hsession, hcount, hzero, hmiss]
    exact htyped
  · constructor <;> simp [hsession, hflag, hclear, hmiss]
    · exact htyped
    · exact fun _ => ⟨hover, hcached ▸ hblk⟩
  · rw [hstate₁] at hreuse
    obtain ⟨hgeometry, hover⟩ := hkeep hreuse
    obtain ⟨hused, -, -, -, -, blk, hcache, hagree⟩ := hreuse
    obtain ⟨⟨layer, hlayer, hl⟩, blk', hcache', hagree'⟩ := hinv.filled hused
    have hblkeq : blk' = blk := Option.some.inj (hcache'.symm.trans hcache)
    subst hblkeq
    have hpicture := picture_of_agrees hagree hagree' hover
    have hshows := shows_same_picture (hinv.composed hpending hused) hover hpicture
    have hover' : ∃ layer ∈ frame.decided, layer.isOverlay = true := by
      have hmem : true ∈ frame.decided.map (·.isOverlay) := by
        rw [hover, ← hl]
        exact List.mem_map_of_mem hlayer
      obtain ⟨layer', hlayer', hl'⟩ := List.mem_map.mp hmem
      exact ⟨layer', hlayer', hl'⟩
    have hcount₁ : ctx₁.cachedLayersCount = s.session.ctx.cachedLayersCount :=
      congrArg CacheState.cachedLayersCount hstate₁
    have hcached₁ : ctx₁.cachedLayers = s.session.ctx.cachedLayers :=
      congrArg CacheState.cachedLayers hstate₁
    constructor <;> simp [hsession, hhit, hgeometry]
    · exact htyped
    · intro _
      refine ⟨hover', blk', ?_, hagree⟩
      rw [hcached, hblk, hcached₁]
      exact hcache'
    · refine ⟨?_, hshows⟩
      rw [hcount, hsame, hcount₁]
      exact hused

theorem shown_inv_setparameter {s : Shown} (hinv : ShownInv s) (param : HwcParam) (value : Int) :
    ShownInv { s with session :=
      { s.session with ctx := (hwcomposerSetparameter s.session.ctx param value).1 } } := by
  have hsession : SessionInv
      { s.session with ctx := (hwcomposerSetparameter s.session.ctx param value).1 } :=
    session_inv_step s.session (.setparameter param value) _ hinv.session rfl
  cases param <;>
    exact ⟨hsession, hinv.typed, hinv.filled, hinv.composed, hinv.decided, hinv.hit, hinv.missed⟩

/-- A GPU job is done for the list as it was handed in; without one nothing in it needed one. -/
theorem set_gpu_job {ctx : HwcomposerContext} {env : SetEnv} {list : HwcLayerList} {r : Posted}
    (h : hwcomposerSet ctx env (some list) = some r) (hclear : ctx.grabbedAllLayers = false) :
    r.list = some list ∧
      (r.gpuJob = false → ¬ ∃ layer ∈ list.hwLayers, layer.compositionType = hwcFramebuffer) := by
  simp only [hwcomposerSet, hclear, Bool.false_eq_true, if_false, Option.map_some,
    Option.some.injEq] at h
  subst h
  refine ⟨rfl, ?_⟩
  intro hjob hfb
  have hlt := compdev_count_lt emptyFrameRect 0 hfb
  have hall : list.hwLayers.length = compdevLayerCount list.hwLayers := by
    simpa using hjob
  unfold compdevLayerCount at hall
  omega

theorem set_gpu_job_clear {ctx : HwcomposerContext} {env : SetEnv} {list : Option HwcLayerList}
    {r : Posted} (h : hwcomposerSet ctx env list = some r) (hjob : r.gpuJob = true) :
    ctx.grabbedAllLayers = false := by
  cases list with
  | none =>
    simp only [hwcomposerSet, Option.some.injEq] at h
    subst h
    simpa using hjob
  | some list =>
    obtain ⟨layers, -, rfl⟩ := Option.map_eq_some_iff.mp h
    simp only [Bool.and_eq_true, Bool.not_eq_true'] at hjob
    exact hjob.1

theorem shown_inv_set {s : Shown} (hinv : ShownInv s) {q : Pending} (hq : q ∈ s.session.pending)
    {env : SetEnv} {r : Posted}
    (hr : hwcomposerSet s.session.ctx env q.prepared.list = some r) :
    ShownInv (if r.gpuJob then
        { s with
          session := { s.session with pending := none }
          framebuffer := some ((r.list.map (·.hwLayers)).getD [])
          changed := false }
      else { s with session := { s.session with pending := none } }) := by
  have hsession : SessionInv { s.session with pending := none } := by
    constructor <;> simp [hinv.session.cache]
  have hgrabbed := grabbed_iff hinv.session hq
  have hlists := prepared_list hinv.session hq
  have hprevious := hinv.decided q hq
  by_cases hclear : s.session.ctx.grabbedAllLayers = false
  · -- the list goes through set as prepare decided it
    have hplist : q.prepared.list.map (·.hwLayers) = q.frame.list.map fun _ => s.previous := by
      rcases hlists with ⟨hframe, hnone⟩ | ⟨list, hframe, ⟨hout, -⟩ | ⟨-, hplist⟩⟩
      · rw [hnone, hframe]
        rfl
      · rw [hclear] at hgrabbed
        exact absurd (hgrabbed.mpr (.inl hout)) (by decide)
      · rw [hplist, hframe, ← hprevious]
        simp [Frame.decided, hframe]
    cases hpl : q.prepared.list with
    | none =>
      have hempty : s.previous = [] := by
        have hframe : q.frame.list = none := by
          simpa [hpl] using hplist
        rw [← hprevious]
        simp [Frame.decided, hframe]
      have hnothing : ∀ t : Shown, t.shows s.previous := by
        rintro t ⟨layer, hlayer, -⟩
        simp [hempty] at hlayer
      split_ifs
      · exact ⟨hsession, hinv.typed, hinv.filled, fun _ _ => hnothing _, by simp, by simp, by simp⟩
      · exact ⟨hsession, hinv.typed, hinv.filled, fun _ _ => hnothing _, by simp, by simp, by simp⟩
    | some list =>
      rw [hpl] at hr
      obtain ⟨hrlist, hjob⟩ := set_gpu_job hr hclear
      have hlayers : list.hwLayers = s.previous := by
        rw [hpl] at hplist
        cases hframe : q.frame.list with
        | none => simp [hframe] at hplist
        | some _ => simpa [hframe] using hplist
      split_ifs with hgpu
      · refine ⟨hsession, hinv.typed, hinv.filled, ?_, by simp, by simp, by simp⟩
        intro _ _ _
        refine ⟨s.previous, ?_, rfl, rfl⟩
        simp [hrlist, hlayers]
      · refine ⟨hsession, hinv.typed, hinv.filled, ?_, by simp, by simp, by simp⟩
        rintro - - ⟨layer, hlayer, hl⟩
        have hfb : layer.compositionType = hwcFramebuffer := by
          rcases hinv.typed layer hlayer with hfb | hover
          · exact hfb
          · simp [HwcLayer.isOverlay, hover] at hl
        exact absurd ⟨layer, hlayers ▸ hlayer, hfb⟩ (hjob (by simpa using hgpu))
  · -- with the flag set there is no GPU job, and the cache is in use only after a hit
    have hnojob : ¬ r.gpuJob = true := fun hjob => hclear (set_gpu_job_clear hr hjob)
    rw [if_neg hnojob]
    refine ⟨hsession, hinv.typed, hinv.filled, ?_, by simp, by simp, by simp⟩
    intro _ hused
    cases hhit : q.prepared.cache.isHit with
    | true => exact (hinv.hit q hq hhit).2
    | false => exact absurd (hinv.missed q hq hhit hused) hclear

theorem shown_inv_step (s : Shown) (call : Call) (t : Shown) (hinv : ShownInv s)
    (hok : keepsFramebuffer s call) (h : s.step call = some t) : ShownInv t := by
  obtain ⟨session, hsession, h⟩ := Option.bind_eq_some_iff.mp h
  cases call with
  | prepare frame =>
    simp only [Session.step] at hsession
    split at hsession
    · cases hsession
    · next hpending =>
      obtain ⟨p, hp, rfl⟩ := Option.map_eq_some_iff.mp hsession
      cases h
      exact shown_inv_prepare hinv hok hpending hp
  | setparameter param value =>
    cases hsession
    cases h
    exact shown_inv_setparameter hinv param value
  | set env =>
    obtain ⟨q, hq, rfl⟩ := Option.map_eq_some_iff.mp hsession
    simp only [hq] at h
    obtain ⟨r, hr, rfl⟩ := Option.map_eq_some_iff.mp h
    exact shown_inv_set hinv hq hr

/-- In a run whose prepares keep the framebuffer valid, every full cache hit has an overlay, and
each layer it leaves to the GPU is in the framebuffer: left to the GPU there too, at the same
position, with the same handle, and no changed geometry since. -/
theorem hit_reuses_composed_frame (calls : List Call) {s : Shown}
    (hok : Meets Shown.step keepsFramebuffer .opened calls)
    (hrun : run Shown.step .opened calls = some s) {q : Pending} (hq : q ∈ s.session.pending)
    (hhit : q.prepared.cache.isHit = true) :
    (∃ layer ∈ q.frame.decided, layer.isOverlay = true) ∧
    (∀ (i : Nat) (layer : HwcLayer), q.frame.decided[i]? = some layer → layer.isOverlay = false →
      s.changed = false ∧ ∃ fb ∈ s.framebuffer, ∃ old, fb[i]? = some old ∧
        old.isOverlay = false ∧ old.handle = layer.handle) ∧
    ((∃ layer ∈ q.frame.decided, layer.isOverlay = false) →
      ∃ fb ∈ s.framebuffer, gpuPicture fb = gpuPicture q.frame.decided) := by
  have hinv : ShownInv s := run_induction_of_meets shown_inv_step shown_inv_opened hok hrun
  obtain ⟨hused, hshows⟩ := hinv.hit q hq hhit
  rw [hinv.decided q hq]
  refine ⟨(hinv.filled hused).1, ?_, ?_⟩
  · intro i layer hlayer hgpu
    obtain ⟨fb, hfb, hsame, hpicture⟩ := hshows ⟨layer, List.mem_of_getElem? hlayer, hgpu⟩
    have hat : (gpuPicture fb)[i]? = some (some layer.handle) := by
      rw [hpicture]
      simp [gpuPicture, hlayer, hgpu]
    unfold gpuPicture at hat
    rw [List.getElem?_map, Option.map_eq_some_iff] at hat
    obtain ⟨old, hold, hpaint⟩ := hat
    split_ifs at hpaint with hover
    exact ⟨hsame, fb, hfb, old, hold, by simpa using hover, Option.some.inj hpaint⟩
  · intro hgpu
    obtain ⟨fb, hfb, -, hpicture⟩ := hshows hgpu
    exact ⟨fb, hfb, hpicture⟩

theorem grabbing_keeps_framebuffer :
    Meets Shown.step keepsFramebuffer .opened grabbingCalls := by
  refine ⟨⟨⟨_, rfl, by decide⟩, by decide, fun h => absurd rfl h.1⟩, ?_⟩
  rintro s ⟨⟩
  refine ⟨trivial, ?_⟩
  rintro s ⟨⟩
  exact ⟨⟨⟨_, rfl, by decide⟩, by decide, fun _ => ⟨rfl, rfl⟩⟩, fun _ _ => trivial⟩

/-- The second frame of `grabbingCalls` hits, and the icon it shows is in the framebuffer. -/
theorem hit_reuses_sample : ∃ s q, run Shown.step .opened grabbingCalls = some s ∧
    q ∈ s.session.pending ∧ ∃ fb ∈ s.framebuffer, gpuPicture fb = [none, some (some 8)] := by
  obtain ⟨-, -, hsame⟩ := hit_reuses_composed_frame grabbingCalls
    grabbing_keeps_framebuffer rfl rfl rfl
  obtain ⟨fb, hfb, hpicture⟩ := hsame ⟨_, List.mem_cons_of_mem _ (List.mem_cons_self ..), rfl⟩
  exact ⟨_, _, rfl, rfl, fb, hfb, hpicture⟩

/-- The video loses its visible region with a changed geometry. The handles still match, so the
cache is hit, without an overlay, and the frame from before the change stays on the screen. -/
theorem hit_after_changed_geometry : ∃ s q r,
    run Shown.step .opened
      [.prepare (sampleFrame hwcGeometryChanged [sampleLayer 7 0, sampleLayer 8 0]),
        .set sampleEnv,
        .prepare (sampleFrame hwcGeometryChanged
          [⟨0, 0, 0, some 7, 0, ⟨0, none, by simp⟩⟩, sampleLayer 8 0])] = some s ∧
    q ∈ s.session.pending ∧ q.prepared.cache.isHit = true ∧
    (¬ ∃ layer ∈ q.frame.decided, layer.isOverlay = true) ∧ s.changed = true ∧
    s.framebuffer.map gpuPicture = some [none, some (some 8)] ∧
    hwcomposerSet s.session.ctx sampleEnv q.prepared.list = some r ∧ r.gpuJob = false := by
  refine ⟨_, _, _, rfl, rfl, rfl, ?_, rfl, rfl, rfl, rfl⟩
  decide

end Codinalte.Hwcomposer
