import Codinalte.Lib.Machine
import Codinalte.Hwcomposer.Cache
import Codinalte.Hwcomposer.Set

/-! The hwcomposer over a run of calls: prepare and set in turn on the same list, setparameter
anywhere. The flag `grabbed_all_layers` ties the two calls of one frame together. -/

namespace Codinalte.Hwcomposer
open Codinalte.Machine

/-- A prepare whose set has not come yet, with the context it started from. -/
structure Pending where
  before : HwcomposerContext
  frame : Frame
  prepared : Prepared

structure Session where
  ctx : HwcomposerContext
  pending : Option Pending

inductive Call where
  | prepare (frame : Frame)
  | setparameter (param : HwcParam) (value : Int)
  | set (env : SetEnv)

def Session.opened : Session := ⟨.opened, none⟩

def Session.step (s : Session) : Call → Option Session
  | .prepare frame =>
    match s.pending with
    | some _ => none
    | none => (hwcomposerPrepare s.ctx frame).map fun p => ⟨p.ctx, some ⟨s.ctx, frame, p⟩⟩
  | .setparameter param value =>
    some { s with ctx := (hwcomposerSetparameter s.ctx param value).1 }
  | .set _ =>
    -- set writes nothing to the context, so a run also goes on after one that read wild types
    s.pending.map fun _ => { s with pending := none }

/-- The prepare finds the flag of an earlier frame and leaves without clearing it. -/
def keepsOldFlag (before : HwcomposerContext) (frame : Frame) : Prop :=
  before.grabbedAllLayers = true ∧
    ∀ list, frame.list = some list →
      leavesCacheEarly before.cacheState (decidedLayers frame.gralloc list)

/-- Between prepare and set the flag and the saved types are those that prepare left. -/
structure SessionInv (s : Session) : Prop where
  cache : CacheInv s.ctx.cacheState
  before : ∀ q ∈ s.pending, CacheInv q.before.cacheState
  made : ∀ q ∈ s.pending, hwcomposerPrepare q.before q.frame = some q.prepared
  grabbed : ∀ q ∈ s.pending, s.ctx.grabbedAllLayers = q.prepared.ctx.grabbedAllLayers
  types : ∀ q ∈ s.pending,
    s.ctx.actualCompositionTypes = q.prepared.ctx.actualCompositionTypes
  typesSize : ∀ q ∈ s.pending,
    s.ctx.actualCompositionTypesSize = q.prepared.ctx.actualCompositionTypesSize

theorem session_inv_opened : SessionInv Session.opened := by
  constructor <;> simp [Session.opened, cache_inv_opened]

theorem setparameter_frame (ctx : HwcomposerContext) (param : HwcParam) (value : Int) :
    (hwcomposerSetparameter ctx param value).1.grabbedAllLayers = ctx.grabbedAllLayers ∧
    (hwcomposerSetparameter ctx param value).1.actualCompositionTypes =
      ctx.actualCompositionTypes ∧
    (hwcomposerSetparameter ctx param value).1.actualCompositionTypesSize =
      ctx.actualCompositionTypesSize := by
  cases param <;> exact ⟨rfl, rfl, rfl⟩

theorem session_inv_step (s : Session) (call : Call) (t : Session) (hinv : SessionInv s)
    (h : s.step call = some t) : SessionInv t := by
  cases call with
  | prepare frame =>
    simp only [Session.step] at h
    split at h
    · cases h
    · obtain ⟨p, hp, rfl⟩ := Option.map_eq_some_iff.mp h
      constructor <;> simp [prepare_inv hinv.cache hp, hinv.cache, hp]
  | setparameter param value =>
    simp only [Session.step, Option.some.injEq] at h
    subst h
    obtain ⟨hgrabbed, htypes, hsize⟩ := setparameter_frame s.ctx param value
    refine ⟨setparameter_inv hinv.cache param value, hinv.before, hinv.made, ?_, ?_, ?_⟩
    · exact fun q hq => hgrabbed.trans (hinv.grabbed q hq)
    · exact fun q hq => htypes.trans (hinv.types q hq)
    · exact fun q hq => hsize.trans (hinv.typesSize q hq)
  | set env =>
    obtain ⟨q, -, rfl⟩ := Option.map_eq_some_iff.mp h
    constructor <;> simp [hinv.cache]

theorem session_inv_run {s : Session} {calls : List Call}
    (h : run Session.step .opened calls = some s) : SessionInv s :=
  run_induction session_inv_step session_inv_opened h

/-- The flag that set finds is this frame's own, or an old one that prepare left standing. -/
theorem grabbed_iff {s : Session} (hinv : SessionInv s) {q : Pending} (hq : q ∈ s.pending) :
    s.ctx.grabbedAllLayers = true ↔
      q.prepared.cache = .grabbed ∨ keepsOldFlag q.before q.frame := by
  rw [hinv.grabbed q hq]
  have hbefore := hinv.before q hq
  have hmade := hinv.made q hq
  cases hlist : q.frame.list with
  | none =>
    obtain ⟨-, hcache, hstate⟩ := prepare_of_null hlist hmade
    have hflag : q.prepared.ctx.grabbedAllLayers = q.before.grabbedAllLayers :=
      congrArg CacheState.grabbedAllLayers hstate
    simp [hflag, hcache, keepsOldFlag, hlist]
  | some list =>
    obtain ⟨ctx₁, ctx₂, layers, hstate₁, hlook, -, hstate⟩ := prepare_of_list hlist hmade
    have hflag : q.prepared.ctx.grabbedAllLayers = ctx₂.grabbedAllLayers := by
      have := congrArg CacheState.grabbedAllLayers hstate
      split_ifs at this <;> exact this
    have hflag₁ : ctx₁.grabbedAllLayers = q.before.grabbedAllLayers :=
      congrArg CacheState.grabbedAllLayers hstate₁
    have hcases := (cache_layers_cases (hstate₁.symm ▸ hbefore) hlook).2
    rw [hstate₁, hflag₁] at hcases
    simp only [hflag, keepsOldFlag, hlist, Option.some.injEq, forall_eq']
    rcases hcases with ⟨hout, -, hg, -⟩ | ⟨hout, -, hiff⟩
    · simp [hout, hg]
    · simp [hout, hiff]

/-- The list that set is given once prepare is done with `frame`, and the types it saved. -/
theorem prepared_list {s : Session} (hinv : SessionInv s) {q : Pending} (hq : q ∈ s.pending) :
    (q.frame.list = none ∧ q.prepared.list = none) ∨
    ∃ list, q.frame.list = some list ∧
      ((q.prepared.cache = .grabbed ∧ q.prepared.list =
          some { list with hwLayers := overlayAll (decidedLayers q.frame.gralloc list) } ∧
        s.ctx.actualCompositionTypes =
          some ((decidedLayers q.frame.gralloc list).map (·.compositionType)) ∧
        s.ctx.actualCompositionTypesSize = (decidedLayers q.frame.gralloc list).length) ∨
      (q.prepared.cache ≠ .grabbed ∧ q.prepared.list =
          some { list with hwLayers := decidedLayers q.frame.gralloc list })) := by
  have hmade := hinv.made q hq
  cases hlist : q.frame.list with
  | none => exact .inl ⟨rfl, (prepare_of_null hlist hmade).1⟩
  | some list =>
    right
    obtain ⟨ctx₁, ctx₂, layers, hstate₁, hlook, hplist, hstate⟩ := prepare_of_list hlist hmade
    refine ⟨list, rfl, ?_⟩
    rcases (cache_layers_cases (hstate₁.symm ▸ hinv.before q hq) hlook).2 with
      ⟨hout, rfl, -, htypes, hsize⟩ | ⟨hout, rfl, -⟩
    · have hstate' : q.prepared.ctx.cacheState =
          { ctx₂.cacheState with pendingRotation := false } := by
        rw [hstate, if_neg (by simp [hout])]
      refine .inl ⟨hout, hplist, ?_, ?_⟩
      · rw [hinv.types q hq, ← htypes]
        exact congrArg CacheState.actualCompositionTypes hstate'
      · rw [hinv.typesSize q hq, ← hsize]
        exact congrArg CacheState.actualCompositionTypesSize hstate'
    · exact .inr ⟨hout, hplist⟩

theorem ungrab_saved {ctx : HwcomposerContext} {layers : List HwcLayer}
    (h : ctx.actualCompositionTypes = some (layers.map (·.compositionType))) :
    ungrabFbLayersLocked ctx (overlayAll layers) = some layers := by
  have hload : load ctx.actualCompositionTypes (overlayAll layers).length =
      some (layers.map (·.compositionType)) := by
    rw [h, overlayAll, List.length_map, load_take (by simp)]
    exact congrArg some (List.take_of_length_le (by simp))
  rw [ungrabFbLayersLocked, hload, Option.map_some, restore_overlay_all]

/-- Set after a prepare that left no old flag: it looks at this frame's own saved types only,
puts back the types that prepare decided, and leaves the GPU job out exactly for a grabbed frame
or one that goes to compdev as a whole. -/
theorem set_restores_prepared_frame (calls : List Call) {s : Session}
    (hrun : run Session.step .opened calls = some s) {q : Pending} (hq : q ∈ s.pending)
    (hfresh : ¬ keepsOldFlag q.before q.frame) (env : SetEnv) :
    (s.ctx.grabbedAllLayers = true ↔ q.prepared.cache = .grabbed) ∧
    (s.ctx.grabbedAllLayers = true → ∀ list ∈ q.prepared.list,
      list.hwLayers.length ≤ s.ctx.actualCompositionTypesSize ∧
      ∃ types ∈ s.ctx.actualCompositionTypes,
        types.length = s.ctx.actualCompositionTypesSize) ∧
    ∃ r, hwcomposerSet s.ctx env q.prepared.list = some r ∧
      r.list = q.frame.list.map
        (fun list => { list with hwLayers := decidedLayers q.frame.gralloc list }) ∧
      (r.gpuJob = false ↔ q.prepared.cache = .grabbed ∨
        ∃ list ∈ r.list, list.hwLayers.length = compdevLayerCount list.hwLayers) := by
  have hinv := session_inv_run hrun
  have hflag : s.ctx.grabbedAllLayers = true ↔ q.prepared.cache = .grabbed := by
    rw [grabbed_iff hinv hq]
    exact or_iff_left hfresh
  refine ⟨hflag, ?_, ?_⟩
  · intro hgrabbed list hlist
    rcases prepared_list hinv hq with
      ⟨-, hnone⟩ | ⟨l, -, ⟨-, hplist, htypes, hsize⟩ | ⟨hout, -⟩⟩
    · simp [hnone] at hlist
    · rw [hplist, Option.mem_some_iff] at hlist
      subst hlist
      simp [htypes, hsize, overlayAll]
    · exact absurd (hflag.mp hgrabbed) hout
  · rcases prepared_list hinv hq with
      ⟨hframe, hnone⟩ | ⟨l, hframe, ⟨hout, hplist, htypes, -⟩ | ⟨hout, hplist⟩⟩
    · rw [hnone, hframe]
      refine ⟨_, rfl, rfl, ?_⟩
      simp [hflag]
    · have hgrabbed := hflag.mpr hout
      rw [hplist, hframe]
      simp only [hwcomposerSet, hgrabbed, if_true, ungrab_saved htypes, Option.map_some]
      refine ⟨_, rfl, rfl, ?_⟩
      simp [hout]
    · have hgrabbed : s.ctx.grabbedAllLayers = false := by
        rw [← Bool.not_eq_true, hflag]
        exact hout
      rw [hplist, hframe]
      simp only [hwcomposerSet, hgrabbed, Bool.false_eq_true, if_false, Option.map_some]
      refine ⟨_, rfl, rfl, ?_⟩
      simp [hout]

def screenRegion : HwcRegion := ⟨1, some [⟨0, 0, 480, 800⟩], by simp⟩

def sampleLayer (handle : Handle) (compositionType : Int) : HwcLayer :=
  ⟨compositionType, 0, 0, some handle, 0, screenRegion⟩

/-- Buffer 7 is a hwmem buffer in a YUV format, the others are neither. -/
def sampleGralloc (handle : Handle) : GrallocBuf :=
  if handle = 7 then ⟨grallocBufTypeHwmem, 0x13, 480, 800⟩ else ⟨1, 1, 480, 800⟩

def sampleFrame (flags : BitVec 32) (layers : List HwcLayer) : Frame :=
  ⟨some ⟨flags, layers⟩, sampleGralloc, ⟨true, true, true, true⟩⟩

def sampleEnv : SetEnv := ⟨true, false⟩

/-- A video with an icon above it: populated in the first frame, grabbed in the second. -/
def grabbingCalls : List Call :=
  [.prepare (sampleFrame hwcGeometryChanged [sampleLayer 7 0, sampleLayer 8 0]), .set sampleEnv,
    .prepare (sampleFrame 0 [sampleLayer 7 hwcOverlay, sampleLayer 8 0])]

/-- The grabbed frame of `grabbingCalls`: both types come back and there is no GPU job. -/
theorem set_restores_grabbed_sample : ∃ s q, run Session.step .opened grabbingCalls = some s ∧
    q ∈ s.pending ∧ q.prepared.cache = .grabbed ∧
    ∃ r, hwcomposerSet s.ctx sampleEnv q.prepared.list = some r ∧ r.gpuJob = false ∧
      r.list = some ⟨0, [⟨hwcOverlay, 0, 0, some 7, 0, screenRegion⟩, sampleLayer 8 0]⟩ := by
  obtain ⟨-, -, r, hset, hlist, hgpu⟩ := set_restores_prepared_frame grabbingCalls
    rfl rfl (fun h => Bool.noConfusion h.1) sampleEnv
  exact ⟨_, _, rfl, rfl, rfl, r, hset, hgpu.mpr (.inl rfl), hlist⟩

/-- A single video layer goes to compdev without a GPU job in a frame that grabbed nothing; and
a NULL list or a list of 17 layers after a grabbed frame finds the flag of that frame. -/
theorem gpu_job_left_out_ungrabbed :
    (∃ s q r, run Session.step .opened
        [.prepare (sampleFrame hwcGeometryChanged [sampleLayer 7 0])] = some s ∧
      q ∈ s.pending ∧ q.prepared.cache ≠ .grabbed ∧
      hwcomposerSet s.ctx sampleEnv q.prepared.list = some r ∧ r.gpuJob = false) ∧
    (∃ s q, run Session.step .opened (grabbingCalls ++ [.set sampleEnv,
        .prepare ⟨none, sampleGralloc, ⟨true, true, true, true⟩⟩]) = some s ∧
      q ∈ s.pending ∧ q.prepared.cache ≠ .grabbed ∧ s.ctx.grabbedAllLayers = true) ∧
    (∃ s q, run Session.step .opened (grabbingCalls ++ [.set sampleEnv,
        .prepare (sampleFrame 0 (List.replicate 17 (sampleLayer 8 0)))]) = some s ∧
      q ∈ s.pending ∧ q.prepared.cache ≠ .grabbed ∧
      hwcomposerSet s.ctx sampleEnv q.prepared.list = none) := by
  refine ⟨⟨_, _, _, rfl, rfl, ?_, rfl, rfl⟩, ⟨_, _, rfl, rfl, ?_, rfl⟩, ⟨_, _, rfl, rfl, ?_, rfl⟩⟩
  · decide
  · decide
  · decide

end Codinalte.Hwcomposer
