import Codinalte.Hwcomposer.Hdmi

/-! The commands sent to hdmid over any sequence of prepares and parameters, one plugged period
after the other. -/

namespace Codinalte.Hwcomposer
open Codinalte.Machine

/-- `playing`, `period` and `stale` are records: whether the last list that was searched shows a
video, the commands sent in the current plugged period, and whether it began with a request of an
earlier one still kept. -/
structure HdmiLog where
  ctx : HwcomposerContext
  playing : Bool
  period : List HdmidCommand
  stale : Bool

inductive HwcCall where
  | prepare (f : Frame)
  | setparameter (param : HwcParam) (value : Int)

def HdmidCommand.isDefault : HdmidCommand → Bool
  | .preferredResolution _ => false
  | .defaultResolution => true

namespace HdmiLog

def start : HdmiLog := ⟨.opened, false, [], false⟩

def plugged (s : HdmiLog) : Bool := s.ctx.hdmiSettings.hdmiPlugged
def changed (s : HdmiLog) : Bool := s.ctx.hdmiSettings.resolutionchanged

def step (s : HdmiLog) : HwcCall → Option HdmiLog
  | .prepare f => (hwcomposerPrepare s.ctx f).map fun p =>
    { s with ctx := p.ctx, playing := f.video.getD s.playing, period := s.period ++ p.hdmid }
  | .setparameter param value =>
    let ctx := (hwcomposerSetparameter s.ctx param value).1
    if ctx.hdmiSettings.hdmiPlugged = s.plugged then some { s with ctx := ctx }
    else some
      { s with
        ctx := ctx
        period := []
        stale := ctx.hdmiSettings.hdmiPlugged && ctx.hdmiSettings.resolutionchanged }

/-- Whether the next command is to be one for a preferred resolution. -/
def preferredDue (period : List HdmidCommand) : Bool :=
  period.foldl (fun _ command => command.isDefault) true

/-- Preferred and default resolutions in turn, a preferred one first if it is due. -/
def Alternates : Bool → List HdmidCommand → Prop
  | _, [] => True
  | due, .preferredResolution _ :: rest => due = true ∧ Alternates false rest
  | due, .defaultResolution :: rest => due = false ∧ Alternates true rest

/-- What is promised of a prepare. -/
structure Answers (s : HdmiLog) (f : Frame) (t : HdmiLog) : Prop where
  requested : t.changed = true →
    t.plugged = true ∧ t.playing = true ∧ preferredDue t.period = false
  resolution : t.ctx.hdmi.Consistent
  inTurn : Alternates true t.period
  silent : t.plugged = false → t.period = []
  answered : s.plugged = true → f.video = some true → s.playing = false ∨ s.period = [] →
    t.period = s.period ++ [.preferredResolution f.preferred]

def Keeps (s : HdmiLog) : HwcCall → Prop
  | .prepare f => ∀ t, s.step (.prepare f) = some t → s.Answers f t
  | .setparameter _ _ => True

/-- No prepare runs in a plugged period that began with a request kept from an earlier one, and none
takes its error exit when it would have to give a request up. -/
def Fits (s : HdmiLog) : HwcCall → Prop
  | .prepare f => s.stale = false ∧ (s.changed = true → grabFails s.ctx f = true →
    s.plugged = true ∧ f.video.getD s.playing = true)
  | .setparameter _ _ => True

instance (s : HdmiLog) : ∀ a, Decidable (s.Fits a)
  | .prepare _ => inferInstanceAs (Decidable (_ ∧ _))
  | .setparameter _ _ => .isTrue trivial

theorem preferredDue_snoc (period : List HdmidCommand) (command : HdmidCommand) :
    preferredDue (period ++ [command]) = command.isDefault := by
  unfold preferredDue
  rw [List.foldl_append]
  rfl

theorem alternates_append {due : Bool} {period : List HdmidCommand} {command : HdmidCommand}
    (h : Alternates due period)
    (hnext : command.isDefault = !period.foldl (fun _ command => command.isDefault) due) :
    Alternates due (period ++ [command]) := by
  induction period generalizing due with
  | nil =>
    cases command with
    | preferredResolution res =>
      have hdue : false = !due := hnext
      exact ⟨by simpa using hdue, trivial⟩
    | defaultResolution =>
      have hdue : true = !due := hnext
      exact ⟨by simpa using hdue, trivial⟩
  | cons first rest ih =>
    cases first with
    | preferredResolution res => exact ⟨h.1, ih h.2 hnext⟩
    | defaultResolution => exact ⟨h.1, ih h.2 hnext⟩

variable {s t : HdmiLog} {f : Frame}

structure Inv (s : HdmiLog) : Prop where
  cache : CacheInv s.ctx.cacheState
  resolution : s.ctx.hdmi.Consistent
  video : s.ctx.videoplayback = s.playing
  shown : s.changed = true → s.playing = true
  inTurn : Alternates true s.period
  unplugged : s.plugged = false → s.period = [] ∧ s.stale = false
  kept : s.stale = true → s.changed = true ∧ s.period = []
  requested : s.plugged = true → s.stale = false → s.changed = !preferredDue s.period

theorem inv_start : Inv start where
  cache := cache_inv_opened
  resolution := ⟨fun _ => rfl, fun _ => rfl⟩
  video := rfl
  shown := fun h => nomatch h
  inTurn := trivial
  unplugged := fun _ => ⟨rfl, rfl⟩
  kept := fun h => nomatch h
  requested := fun h => nomatch h

/-- What a prepare does for the resolution. -/
inductive PrepareStep (s : HdmiLog) (f : Frame) (t : HdmiLog) : Prop where
  | asks (plugged : s.plugged = true) (video : f.video = some true) (idle : s.changed = false)
      (settings : t.ctx.hdmiSettings = ⟨true, true, f.preferred⟩)
      (period : t.period = s.period ++ [.preferredResolution f.preferred])
  | reverts (changed : s.changed = true) (ended : t.playing = false ∨ s.plugged = false)
      (fails : grabFails s.ctx f = false)
      (settings : t.ctx.hdmiSettings = ⟨s.plugged, false, ⟨0, 0⟩⟩)
      (period : t.period = s.period ++ if s.plugged then [.defaultResolution] else [])
  | keeps (asked : s.plugged = true → f.video = some true → s.changed = true)
      (goesOn : s.changed = true →
        t.playing = true ∧ s.plugged = true ∨ grabFails s.ctx f = true)
      (settings : t.ctx.hdmiSettings = s.ctx.hdmiSettings) (period : t.period = s.period)

/-- The fields of a prepare that have nothing to do with the resolution. -/
theorem prepare_records (hinv : Inv s) (h : s.step (.prepare f) = some t) :
    CacheInv t.ctx.cacheState ∧ t.playing = f.video.getD s.playing ∧ t.stale = s.stale := by
  obtain ⟨p, hp, rfl⟩ := Option.map_eq_some_iff.mp h
  exact ⟨prepare_inv hinv.cache hp, rfl, rfl⟩

theorem look_asks {state : HdmiState} (hplugged : state.settings.hdmiPlugged = true)
    (hvideo : f.video = some true) (hidle : state.settings.resolutionchanged = false) :
    state.look f = (⟨true, true, true, f.preferred⟩, [.preferredResolution f.preferred]) := by
  unfold HdmiState.look
  rw [hvideo]
  dsimp only
  rw [hplugged, hidle]
  rfl

theorem look_quiet {state : HdmiState} (hasked : state.settings.hdmiPlugged = true →
      f.video = some true → state.settings.resolutionchanged = true) :
    state.look f = ({ state with videoplayback := f.video.getD state.videoplayback }, []) := by
  unfold HdmiState.look
  cases hvideo : f.video with
  | none => rfl
  | some video =>
    cases video with
    | false => rfl
    | true =>
      refine if_pos ?_
      cases hplugged : state.settings.hdmiPlugged with
      | false => exact Bool.or_true _
      | true =>
        rw [hasked hplugged hvideo]
        rfl

theorem prepare_step (hinv : Inv s) (h : s.step (.prepare f) = some t) :
    PrepareStep s f t ∧ t.ctx.videoplayback = t.playing := by
  obtain ⟨p, hp, rfl⟩ := Option.map_eq_some_iff.mp h
  obtain ⟨hfailed, hdone⟩ := prepare_hdmi hinv.resolution hp
  have hfails := grab_fails_iff hinv.cache hp
  by_cases hask : s.plugged = true ∧ f.video = some true ∧ s.changed = false
  · obtain ⟨hplugged, hvideo, hidle⟩ := hask
    have hlook : s.ctx.hdmi.look f = _ := look_asks hplugged hvideo hidle
    rw [hlook] at hfailed hdone
    have hboth : p.ctx.hdmi = ⟨true, true, true, f.preferred⟩ ∧
        p.hdmid = [.preferredResolution f.preferred] := by
      by_cases hcache : p.cache = .grabFailed
      · exact Prod.mk.inj (hfailed hcache)
      · exact hdone hcache
    refine ⟨.asks hplugged hvideo hidle (congrArg HdmiState.settings hboth.1)
      (congrArg (s.period ++ ·) hboth.2), ?_⟩
    show p.ctx.videoplayback = f.video.getD s.playing
    rw [hvideo]
    exact congrArg HdmiState.videoplayback hboth.1
  · have hasked : s.plugged = true → f.video = some true → s.changed = true := by
      intro hplugged hvideo
      by_contra hidle
      exact hask ⟨hplugged, hvideo, Bool.not_eq_true _ ▸ hidle⟩
    have hlook : s.ctx.hdmi.look f = _ := look_quiet hasked
    have hplaying : s.ctx.hdmi.videoplayback = s.playing := hinv.video
    rw [hplaying] at hlook
    rw [hlook] at hfailed hdone
    dsimp only at hdone
    by_cases hover : ((!f.video.getD s.playing || !s.plugged) && s.changed) = true
    · obtain ⟨hover', hchanged⟩ := Bool.and_eq_true_iff.mp hover
      have hcases : f.video.getD s.playing = false ∨ s.plugged = false := by simpa using hover'
      cases hgrab : grabFails s.ctx f with
      | true =>
        obtain ⟨hstate, hcmds⟩ := Prod.mk.inj (hfailed (hfails.mpr hgrab))
        refine ⟨.keeps hasked (fun _ => .inr hgrab) (congrArg HdmiState.settings hstate) ?_,
          congrArg HdmiState.videoplayback hstate⟩
        show s.period ++ p.hdmid = s.period
        rw [hcmds, List.append_nil]
      | false =>
        have hne : p.cache ≠ .grabFailed := fun heq => absurd (hfails.mp heq) (by rw [hgrab]; nofun)
        have hrevert : HdmiState.revert ⟨f.video.getD s.playing, s.ctx.hdmi.settings⟩ = _ :=
          if_pos hover
        rw [hrevert] at hdone
        obtain ⟨hstate, hcmds⟩ := hdone hne
        exact ⟨.reverts hchanged hcases hgrab (congrArg HdmiState.settings hstate)
          (congrArg (s.period ++ ·) hcmds), congrArg HdmiState.videoplayback hstate⟩
    · have hboth : p.ctx.hdmi = { s.ctx.hdmi with videoplayback := f.video.getD s.playing } ∧
          p.hdmid = [] := by
        by_cases hcache : p.cache = .grabFailed
        · exact Prod.mk.inj (hfailed hcache)
        · have hrevert : HdmiState.revert ⟨f.video.getD s.playing, s.ctx.hdmi.settings⟩ = _ :=
            if_neg hover
          rw [hrevert] at hdone
          exact hdone hcache
      refine ⟨.keeps hasked ?_ (congrArg HdmiState.settings hboth.1) ?_,
        congrArg HdmiState.videoplayback hboth.1⟩
      · intro hchanged
        rw [hchanged, Bool.and_true] at hover
        exact .inl (by simpa using hover)
      · show s.period ++ p.hdmid = s.period
        rw [hboth.2, List.append_nil]

theorem preferred_ne_zero (hvideo : f.video = some true) : f.preferred ≠ ⟨0, 0⟩ := by
  obtain ⟨list, hlist, hsearch⟩ := Option.bind_eq_some_iff.mp hvideo
  have hany : list.hwLayers.any (isVideo f.gralloc) = true :=
    Option.some.inj (Option.ite_none_right_eq_some.mp hsearch).2
  obtain ⟨layer, hmem, hlayer⟩ := List.any_eq_true.mp hany
  unfold Frame.preferred
  rw [hlist, Option.bind_some]
  cases hfind : list.hwLayers.find? (isVideo f.gralloc) with
  | none => exact absurd hlayer (List.find?_eq_none.mp hfind layer hmem)
  | some first => exact hdmi_resolution_ne_zero _ _

theorem Inv.asked (hinv : Inv s) (hcache : CacheInv t.ctx.cacheState)
    (hrecord : t.ctx.videoplayback = t.playing) (hplaying : t.playing = f.video.getD s.playing)
    (hstale : t.stale = s.stale) (hfresh : s.stale = false) (hplugged : s.plugged = true)
    (hvideo : f.video = some true) (hidle : s.changed = false)
    (hsettings : t.ctx.hdmiSettings = ⟨true, true, f.preferred⟩)
    (hperiod : t.period = s.period ++ [.preferredResolution f.preferred]) :
    Inv t ∧ s.Answers f t := by
  have hplugged' : t.plugged = true := congrArg HwcHdmiSettings.hdmiPlugged hsettings
  have hchanged : t.changed = true := congrArg HwcHdmiSettings.resolutionchanged hsettings
  have hres : t.ctx.hdmiSettings.res = f.preferred := congrArg HwcHdmiSettings.res hsettings
  have hplays : t.playing = true := by
    rw [hplaying, hvideo]
    rfl
  have hconsistent : t.ctx.hdmi.Consistent := by
    constructor
    · intro hzero
      exact absurd (hres.symm.trans hzero) (preferred_ne_zero hvideo)
    · intro hno
      rw [show t.ctx.hdmi.settings.resolutionchanged = true from hchanged] at hno
      cases hno
  have hdue : preferredDue s.period = true := by
    have hrequested := hinv.requested hplugged hfresh
    rw [hidle] at hrequested
    simpa using hrequested
  have hturn : Alternates true t.period := by
    rw [hperiod]
    refine alternates_append hinv.inTurn ?_
    change false = !preferredDue s.period
    rw [hdue]
    rfl
  have hout : preferredDue t.period = false := by
    rw [hperiod, preferredDue_snoc]
    rfl
  refine ⟨⟨hcache, hconsistent, hrecord, fun _ => hplays, hturn, ?_, ?_, ?_⟩,
    ⟨fun _ => ⟨hplugged', hplays, hout⟩, hconsistent, hturn, ?_, fun _ _ _ => hperiod⟩⟩
  · intro hno
    rw [hplugged'] at hno
    cases hno
  · intro hno
    rw [hstale, hfresh] at hno
    cases hno
  · intro _ _
    rw [hchanged, hout]
    rfl
  · intro hno
    rw [hplugged'] at hno
    cases hno

theorem Inv.reverted (hinv : Inv s) (hcache : CacheInv t.ctx.cacheState)
    (hrecord : t.ctx.videoplayback = t.playing) (hplaying : t.playing = f.video.getD s.playing)
    (hstale : t.stale = s.stale) (hfresh : s.stale = false) (hchanged : s.changed = true)
    (hover : t.playing = false ∨ s.plugged = false)
    (hsettings : t.ctx.hdmiSettings = ⟨s.plugged, false, ⟨0, 0⟩⟩)
    (hperiod : t.period = s.period ++ if s.plugged then [.defaultResolution] else []) :
    Inv t ∧ s.Answers f t := by
  have hplugged' : t.plugged = s.plugged := by
    have hsame := congrArg HwcHdmiSettings.hdmiPlugged hsettings
    exact hsame
  have hchanged' : t.changed = false := congrArg HwcHdmiSettings.resolutionchanged hsettings
  have hres : t.ctx.hdmiSettings.res = ⟨0, 0⟩ := congrArg HwcHdmiSettings.res hsettings
  have hfresh' : t.stale = false := hstale.trans hfresh
  have hconsistent : t.ctx.hdmi.Consistent := ⟨fun _ => hchanged', fun _ => hres⟩
  have hno : ∀ {P : Prop}, t.changed = true → P := by
    intro P hyes
    rw [hchanged'] at hyes
    cases hyes
  have hsilent : t.plugged = false → t.period = [] := by
    intro hunplugged
    rw [hplugged'] at hunplugged
    rw [hperiod, hunplugged, (hinv.unplugged hunplugged).1]
    rfl
  have hdefault : s.plugged = true →
      Alternates true t.period ∧ preferredDue t.period = true := by
    intro hplugged
    have hdue : preferredDue s.period = false := by
      have hrequested := hinv.requested hplugged hfresh
      rw [hchanged] at hrequested
      simpa using hrequested
    rw [hperiod, hplugged, if_pos rfl, preferredDue_snoc]
    refine ⟨alternates_append hinv.inTurn ?_, rfl⟩
    change true = !preferredDue s.period
    rw [hdue]
    rfl
  have hturn : Alternates true t.period := by
    cases hplugged : s.plugged with
    | true => exact (hdefault hplugged).1
    | false =>
      rw [hsilent (hplugged'.trans hplugged)]
      trivial
  refine ⟨⟨hcache, hconsistent, hrecord, hno, hturn, fun h => ⟨hsilent h, hfresh'⟩, ?_, ?_⟩,
    ⟨hno, hconsistent, hturn, hsilent, ?_⟩⟩
  · intro hyes
    rw [hfresh'] at hyes
    cases hyes
  · intro hplugged _
    rw [hchanged', (hdefault (hplugged'.symm.trans hplugged)).2]
    rfl
  · intro hplugged hvideo _
    rw [hplaying, hvideo, hplugged] at hover
    rcases hover with h | h <;> cases h

theorem Inv.unasked (hinv : Inv s) (hcache : CacheInv t.ctx.cacheState)
    (hrecord : t.ctx.videoplayback = t.playing) (hstale : t.stale = s.stale)
    (hfresh : s.stale = false)
    (hasked : s.plugged = true → f.video = some true → s.changed = true)
    (hgoesOn : s.changed = true → t.playing = true ∧ s.plugged = true)
    (hsettings : t.ctx.hdmiSettings = s.ctx.hdmiSettings) (hperiod : t.period = s.period) :
    Inv t ∧ s.Answers f t := by
  have hplugged' : t.plugged = s.plugged := congrArg HwcHdmiSettings.hdmiPlugged hsettings
  have hchanged' : t.changed = s.changed := congrArg HwcHdmiSettings.resolutionchanged hsettings
  have hconsistent : t.ctx.hdmi.Consistent := by
    unfold HdmiState.Consistent HwcomposerContext.hdmi
    rw [hsettings]
    exact hinv.resolution
  have hfresh' : t.stale = false := hstale.trans hfresh
  have hturn : Alternates true t.period := by
    rw [hperiod]
    exact hinv.inTurn
  have hsilent : t.plugged = false → t.period = [] := by
    intro hunplugged
    rw [hperiod, (hinv.unplugged (hplugged'.symm.trans hunplugged)).1]
  have hgoes : t.changed = true → t.playing = true ∧ s.plugged = true := by
    rw [hchanged']
    exact hgoesOn
  have hrequested : s.plugged = true → s.changed = !preferredDue s.period :=
    fun hplugged => hinv.requested hplugged hfresh
  refine ⟨⟨hcache, hconsistent, hrecord, fun h => (hgoes h).1, hturn,
    fun h => ⟨hsilent h, hfresh'⟩, ?_, ?_⟩, ⟨?_, hconsistent, hturn, hsilent, ?_⟩⟩
  · intro hyes
    rw [hfresh'] at hyes
    cases hyes
  · intro hplugged _
    rw [hchanged', hperiod]
    exact hrequested (hplugged'.symm.trans hplugged)
  · intro hyes
    obtain ⟨hplays, hplugged⟩ := hgoes hyes
    have hdue := hrequested hplugged
    rw [hchanged'] at hyes
    rw [hyes] at hdue
    refine ⟨hplugged'.trans hplugged, hplays, ?_⟩
    rw [hperiod]
    simpa using hdue
  · intro hplugged hvideo hnew
    have hchanged := hasked hplugged hvideo
    rcases hnew with hidle | hempty
    · rw [hinv.shown hchanged] at hidle
      cases hidle
    · have hdue := hrequested hplugged
      rw [hchanged, hempty] at hdue
      cases hdue

theorem Inv.prepare (hinv : Inv s) (hfits : s.Fits (.prepare f))
    (h : s.step (.prepare f) = some t) : Inv t ∧ s.Answers f t := by
  obtain ⟨hcache, hplaying, hstale⟩ := prepare_records hinv h
  obtain ⟨hstep, hrecord⟩ := prepare_step hinv h
  obtain ⟨hfresh, hfails⟩ := hfits
  cases hstep with
  | asks hplugged hvideo hidle hsettings hperiod =>
    exact hinv.asked hcache hrecord hplaying hstale hfresh hplugged hvideo hidle hsettings hperiod
  | reverts hchanged hover _ hsettings hperiod =>
    exact hinv.reverted hcache hrecord hplaying hstale hfresh hchanged hover hsettings hperiod
  | keeps hasked hgoesOn hsettings hperiod =>
    refine hinv.unasked hcache hrecord hstale hfresh hasked ?_ hsettings hperiod
    intro hchanged
    rcases hgoesOn hchanged with hgoes | hgrab
    · exact hgoes
    · obtain ⟨hplugged, hplays⟩ := hfails hchanged hgrab
      exact ⟨hplaying.trans hplays, hplugged⟩

/-- Where the condition is not met, the prepare does not keep the promise. -/
theorem Inv.fits (hinv : Inv s) (h : s.step (.prepare f) = some t) (hanswers : s.Answers f t) :
    s.Fits (.prepare f) := by
  obtain ⟨-, hplaying, -⟩ := prepare_records hinv h
  obtain ⟨hstep, -⟩ := prepare_step hinv h
  constructor
  · by_contra hstale
    have hstale : s.stale = true := Bool.not_eq_false _ ▸ hstale
    obtain ⟨hchanged, hempty⟩ := hinv.kept hstale
    have hplugged : s.plugged = true := by
      by_contra hno
      have hfresh := (hinv.unplugged (Bool.not_eq_true _ ▸ hno)).2
      rw [hstale] at hfresh
      cases hfresh
    cases hstep with
    | asks _ _ hidle _ _ =>
      rw [hchanged] at hidle
      cases hidle
    | reverts _ _ _ _ hperiod =>
      have hturn := hanswers.inTurn
      rw [hperiod, hempty, hplugged] at hturn
      cases hturn.1
    | keeps _ _ hsettings hperiod =>
      have hchanged' : t.changed = true :=
        (congrArg HwcHdmiSettings.resolutionchanged hsettings).trans hchanged
      have hdue := (hanswers.requested hchanged').2.2
      rw [hperiod, hempty] at hdue
      cases hdue
  · intro hchanged hgrab
    cases hstep with
    | asks _ _ hidle _ _ =>
      rw [hchanged] at hidle
      cases hidle
    | reverts _ _ hfails _ _ =>
      rw [hgrab] at hfails
      cases hfails
    | keeps _ _ hsettings _ =>
      have hchanged' : t.changed = true :=
        (congrArg HwcHdmiSettings.resolutionchanged hsettings).trans hchanged
      obtain ⟨hplugged, hplays, -⟩ := hanswers.requested hchanged'
      exact ⟨(congrArg HwcHdmiSettings.hdmiPlugged hsettings).symm.trans hplugged,
        hplaying.symm.trans hplays⟩

/-- What a parameter leaves of the resolution. -/
theorem setparameter_hdmi (s : HdmiLog) (param : HwcParam) (value : Int) :
    (hwcomposerSetparameter s.ctx param value).1.videoplayback = s.ctx.videoplayback ∧
      (hwcomposerSetparameter s.ctx param value).1.hdmiSettings.resolutionchanged = s.changed ∧
      (hwcomposerSetparameter s.ctx param value).1.hdmiSettings.res = s.ctx.hdmiSettings.res := by
  cases param <;> exact ⟨rfl, rfl, rfl⟩

theorem Inv.setparameter (hinv : Inv s) {param : HwcParam} {value : Int}
    (h : s.step (.setparameter param value) = some t) : Inv t := by
  have hcache := setparameter_inv hinv.cache param value
  obtain ⟨hvideo, hchanged, hres⟩ := setparameter_hdmi s param value
  have hconsistent : (hwcomposerSetparameter s.ctx param value).1.hdmi.Consistent := by
    unfold HdmiState.Consistent HwcomposerContext.hdmi
    rw [hchanged, hres]
    exact hinv.resolution
  have hshown : (hwcomposerSetparameter s.ctx param value).1.hdmiSettings.resolutionchanged = true →
      s.playing = true := by
    rw [hchanged]
    exact hinv.shown
  change (if (hwcomposerSetparameter s.ctx param value).1.hdmiSettings.hdmiPlugged = s.plugged
    then _ else _) = some t at h
  split_ifs at h with hsame
  · cases h
    refine ⟨hcache, hconsistent, hvideo.trans hinv.video, hshown, hinv.inTurn, ?_, ?_, ?_⟩
    · intro hplugged
      exact hinv.unplugged (hsame.symm.trans hplugged)
    · intro hstale
      exact ⟨hchanged.trans (hinv.kept hstale).1, (hinv.kept hstale).2⟩
    · intro hplugged hfresh
      exact hchanged.trans (hinv.requested (hsame.symm.trans hplugged) hfresh)
  · cases h
    refine ⟨hcache, hconsistent, hvideo.trans hinv.video, hshown, trivial, ?_, ?_, ?_⟩
    · intro hplugged
      refine ⟨rfl, ?_⟩
      dsimp only
      rw [show (hwcomposerSetparameter s.ctx param value).1.hdmiSettings.hdmiPlugged = false from
        hplugged]
      rfl
    · intro hstale
      exact ⟨(Bool.and_eq_true_iff.mp hstale).2, rfl⟩
    · intro hplugged hfresh
      dsimp only at hfresh
      rw [show (hwcomposerSetparameter s.ctx param value).1.hdmiSettings.hdmiPlugged = true from
        hplugged, Bool.true_and] at hfresh
      exact hfresh

theorem Inv.step {call : HwcCall} (hinv : Inv s) (hfits : s.Fits call)
    (h : s.step call = some t) : Inv t := by
  cases call with
  | prepare f => exact (hinv.prepare hfits h).1
  | setparameter param value => exact hinv.setparameter h

theorem Inv.keeps_iff (hinv : Inv s) {call : HwcCall} (h : s.step call = some t) :
    s.Keeps call ↔ s.Fits call := by
  cases call with
  | prepare f =>
    constructor
    · intro hkeeps
      exact hinv.fits h (hkeeps t h)
    · intro hfits u hu
      exact (hinv.prepare hfits hu).2
  | setparameter param value => exact Iff.rfl

theorem Inv.run_iff {calls : List HwcCall} (hinv : Inv s)
    (hrun : run HdmiLog.step s calls = some t) :
    Meets HdmiLog.step Keeps s calls ↔ Meets HdmiLog.step Fits s calls := by
  induction calls generalizing s with
  | nil => exact Iff.rfl
  | cons call rest ih =>
    obtain ⟨u, hstep, hrest⟩ := run_cons_eq_some.mp hrun
    rw [meets_cons_of_eq hstep, meets_cons_of_eq hstep, hinv.keeps_iff hstep]
    exact and_congr_right fun hfits => ih (hinv.step hfits hstep) hrest

/-- In every run from the opened device the prepares keep the HDMI resolution in step with the
plugged display exactly when none meets a request that an earlier plugged period left, and none
takes its error exit where it would have to give the request up. -/
theorem hdmi_in_step_iff (calls : List HwcCall) (s : HdmiLog)
    (hrun : run HdmiLog.step start calls = some s) :
    Meets HdmiLog.step Keeps start calls ↔ Meets HdmiLog.step Fits start calls :=
  inv_start.run_iff hrun

/-- One layer, a video of 1280 to 720 for the handle 1, in a list of changed geometry. -/
def sampleFrame (handle : Handle) : Frame where
  list := some ⟨hwcGeometryChanged, [⟨0, 0, 0, some handle, 0, ⟨1, none, fun _ h => nomatch h⟩⟩]⟩
  gralloc := fun handle => ⟨grallocBufTypeHwmem, if handle = 1 then 0x11 else 0, 1280, 720⟩
  mallocs := ⟨true, true, true, true⟩

/-- A video is played over two plugged periods, with a prepare between them. -/
def sampleCalls : List HwcCall :=
  [.setparameter .hdmiPlugged 1, .prepare (sampleFrame 1), .prepare (sampleFrame 2),
    .prepare (sampleFrame 1), .setparameter .hdmiPlugged 0, .prepare (sampleFrame 1),
    .setparameter .hdmiPlugged 1, .prepare (sampleFrame 1), .prepare (sampleFrame 2)]

theorem hdmi_in_step_sample : ∃ s, run HdmiLog.step start sampleCalls = some s ∧
    s.period = [.preferredResolution ⟨1280, 720⟩, .defaultResolution] ∧
    Meets HdmiLog.step Keeps start sampleCalls := by
  have hrun : ∃ s, run HdmiLog.step start sampleCalls = some s ∧
      s.period = [.preferredResolution ⟨1280, 720⟩, .defaultResolution] := ⟨_, rfl, rfl⟩
  obtain ⟨s, hrun, hperiod⟩ := hrun
  exact ⟨s, hrun, hperiod, (hdmi_in_step_iff sampleCalls s hrun).mpr (by decide)⟩

/-- With no prepare between unplugging and plugging again, the first command of the new period is
one for the default resolution if the video has ended, and a video that starts is not asked for. -/
theorem default_without_request :
    (∃ s, run HdmiLog.step start
        [.setparameter .hdmiPlugged 1, .prepare (sampleFrame 1), .setparameter .hdmiPlugged 0,
          .setparameter .hdmiPlugged 1, .prepare (sampleFrame 2)] = some s ∧
      s.plugged = true ∧ s.period = [.defaultResolution] ∧ ¬ Alternates true s.period) ∧
    ∃ s, run HdmiLog.step start
        [.setparameter .hdmiPlugged 1, .prepare (sampleFrame 1), .setparameter .hdmiPlugged 0,
          .setparameter .hdmiPlugged 1, .prepare (sampleFrame 1)] = some s ∧
      s.plugged = true ∧ s.playing = true ∧ s.changed = true ∧ s.period = [] := by
  refine ⟨⟨_, rfl, rfl, rfl, ?_⟩, _, rfl, rfl, rfl, rfl, rfl⟩
  rintro ⟨hdue, -⟩
  cases hdue

end HdmiLog

end Codinalte.Hwcomposer
