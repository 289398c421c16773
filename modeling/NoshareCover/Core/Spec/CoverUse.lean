import NoshareCover.Core.Spec.BackendError
import NoshareCover.Lib.IdleCache

/-!
# How long covers are kept

The covers of the registry are a cache that drops what is idle: `Sys.run_lastUses` says so for every run
of the system.  A cover is therefore kept while it is shown and for `evictAfter` after that, the default
cover for good, and nothing else is (`Sys.covers_kept_while_used`).
-/

namespace NoshareCover

open Machine

namespace Sys

variable {σ : Type}

/-! ### When covers were last used -/

def lastUses (s : Sys σ) : IdleCache PlayParams := fun p => (s.reg.covers.lookup p).map Cover.lastUsed

/-- What a step is for the cache. -/
def ops (s : Sys σ) : Event σ → List (IdleCache.Op PlayParams)
  | .setSettings _ settings _ now =>
    if s.reg.settings = some settings then []
    else if settings.defaultPlay.path = "" then [.clear]
    else [.clear, .load settings.defaultPlay now]
  | .warm _ play now => if play.path = "" then [] else [.load play now]
  | .resolve _ play now => if play.path = "" then [] else [.use play now]
  | .endFrame env now => [.expire (s.settings env).defaultPlay now]
  | _ => []

theorem mem_covers_iff (s : Sys σ) (p : PlayParams) :
    p ∈ s.reg.covers ↔ ∃ t, s.lastUses p = some t := by
  rw [← AList.lookup_isSome, lastUses, ← Option.isSome_iff_exists, Option.isSome_map]

theorem lastUses_eq_none (s : Sys σ) (p : PlayParams) : s.lastUses p = none ↔ p ∉ s.reg.covers := by
  rw [lastUses, Option.map_eq_none_iff, AList.lookup_eq_none]

theorem SameReg.lastUses_eq {s t : Sys σ} (h : SameReg s t) : t.lastUses = s.lastUses := by
  funext p
  rw [lastUses, lastUses, h.covers]

theorem setCover_lastUses (s : Sys σ) (p : PlayParams) (c : Cover σ) :
    (s.setCover p c).lastUses = Function.update s.lastUses p (some c.lastUsed) := by
  funext q
  by_cases hq : q = p
  · subst hq
    rw [Function.update_self, lastUses, setCover_lookup_self, Option.map_some]
  · rw [Function.update_of_ne hq, lastUses, setCover_lookup_ne s hq, lastUses]

theorem start_lastUses (s : Sys σ) (play : PlayParams) (settings : Settings) (now : Instant)
    (canSpawn : Bool) :
    (s.start play settings now canSpawn).lastUses = Function.update s.lastUses play (some now) :=
  setCover_lastUses _ _ _

theorem warm_lastUses (s : Sys σ) (env : Env) {play : PlayParams} (now : Instant)
    (hpath : play.path ≠ "") :
    (s.warm env play now).lastUses = IdleCache.apply evictAfter s.lastUses (.load play now) := by
  unfold warm
  rw [IdleCache.apply]
  by_cases hmem : play ∈ s.reg.covers
  · rw [if_pos (.inr hmem), if_neg (mt (s.lastUses_eq_none play).mp (not_not.mpr hmem))]
  · rw [if_neg (not_or.mpr ⟨hpath, hmem⟩), if_pos ((s.lastUses_eq_none play).mpr hmem),
      start_lastUses]

/-! ### Covers that are dropped -/

theorem removeCover_lastUses (s : Sys σ) (play : PlayParams) :
    (s.removeCover play).lastUses = Function.update s.lastUses play none := by
  unfold removeCover
  cases hc : s.reg.covers.lookup play with
  | none =>
    have hnone : s.lastUses play = none := by rw [lastUses, hc, Option.map_none]
    exact (Function.update_eq_self_iff.mpr hnone.symm).symm
  | some c =>
    rw [(retire_behind _ c).reg.lastUses_eq]
    funext q
    by_cases hq : q = play
    · subst hq
      rw [Function.update_self, lastUses, AList.lookup_erase, Option.map_none]
    · rw [Function.update_of_ne hq, lastUses, AList.lookup_erase_ne hq, lastUses]

theorem removeCovers_lastUses (s : Sys σ) (plays : List PlayParams) (p : PlayParams) :
    (plays.foldl removeCover s).lastUses p = if p ∈ plays then none else s.lastUses p := by
  induction plays generalizing s with
  | nil => rfl
  | cons play plays ih =>
    rw [List.foldl_cons, ih, removeCover_lastUses]
    by_cases hp : p = play
    · subst hp
      rw [Function.update_self, ite_self, if_pos (List.mem_cons_self ..)]
    · rw [Function.update_of_ne hp]
      simp only [List.mem_cons, hp, false_or]

theorem mem_stale_iff (s : Sys σ) (env : Env) (now : Instant) (p : PlayParams) :
    p ∈ s.stale env now ↔
      ∃ t, s.lastUses p = some t ∧ p ≠ (s.settings env).defaultPlay ∧ evictAfter ≤ now - t := by
  simp only [stale, List.mem_map, List.mem_filter, decide_eq_true_eq]
  constructor
  · rintro ⟨⟨q, c⟩, ⟨hmem, hne, hold⟩, rfl⟩
    have hc : s.reg.covers.lookup q = some c := AList.mem_lookup_iff.mpr hmem
    exact ⟨c.lastUsed, by rw [lastUses, hc, Option.map_some], hne, hold⟩
  · rintro ⟨t, ht, hne, hold⟩
    obtain ⟨c, hc, rfl⟩ := Option.map_eq_some_iff.mp ht
    exact ⟨⟨p, c⟩, ⟨AList.mem_lookup_iff.mp hc, hne, hold⟩, rfl⟩

theorem endFrame_lastUses (s : Sys σ) (env : Env) (now : Instant) :
    (s.endFrame env now).lastUses
      = IdleCache.apply evictAfter s.lastUses (.expire (s.settings env).defaultPlay now) := by
  funext p
  rw [endFrame, removeCovers_lastUses, IdleCache.apply_expire]
  -- stale: past the limit and not the default
  by_cases hstale : p ∈ s.stale env now
  · rw [if_pos hstale]
    obtain ⟨t, ht, hne, hold⟩ := (s.mem_stale_iff env now p).mp hstale
    rw [ht, Option.filter_some, if_neg]
    rw [decide_eq_true_eq, not_or]
    exact ⟨hne, not_lt.mpr hold⟩
  -- kept: used lately, or the default
  · rw [if_neg hstale]
    cases ht : s.lastUses p with
    | none => rfl
    | some t =>
      rw [Option.filter_some, if_pos]
      refine decide_eq_true ?_
      by_contra hnot
      obtain ⟨hne, hold⟩ := not_or.mp hnot
      exact hstale ((s.mem_stale_iff env now p).mpr ⟨t, ht, hne, not_lt.mp hold⟩)

theorem reset_lastUses (s : Sys σ) (settings : Settings) (error : Option ConfigError) :
    (s.reset settings error).lastUses = fun _ => none := by
  funext p
  show (s.reg.covers.keys.foldl removeCover s).lastUses p = none
  rw [removeCovers_lastUses]
  split_ifs with hp
  · rfl
  · exact (s.lastUses_eq_none p).mpr hp

theorem setSettings_lastUses (s : Sys σ) (env : Env) (settings : Settings)
    (error : Option ConfigError) (now : Instant) :
    (s.setSettings env settings error now).lastUses
      = IdleCache.run evictAfter s.lastUses (s.ops (.setSettings env settings error now)) := by
  rw [setSettings, ops]
  -- nothing happens when the settings are the same
  by_cases hsame : s.reg.settings = some settings
  · rw [if_pos hsame, if_pos hsame]
    rfl
  rw [if_neg hsame, if_neg hsame]
  -- a default without a path is not warmed
  by_cases hpath : settings.defaultPlay.path = ""
  · have hprewarm : (s.reset settings error).prewarm env now = s.reset settings error := if_pos hpath
    rw [hprewarm, reset_lastUses, if_pos hpath]
    rfl
  · have hprewarm : (s.reset settings error).prewarm env now
        = (s.reset settings error).warm env settings.defaultPlay now := if_neg hpath
    rw [hprewarm, warm_lastUses _ _ _ hpath, reset_lastUses, if_neg hpath]
    rfl

variable [Source σ]

/-! ### Covers that are shown -/

omit [Source σ] in
theorem retryMissing_lastUsed (s : Sys σ) (env : Env) (play : PlayParams) (now : Instant)
    (c : Cover σ) : (s.retryMissing env play now c).1.lastUsed = c.lastUsed := by
  unfold retryMissing
  cases c.state with
  | missing t =>
    dsimp only
    split_ifs <;> rfl
  | _ => rfl

theorem pickUp_lastUsed (s : Sys σ) (now : Instant) (c : Cover σ) :
    (s.pickUp now c).1.lastUsed = c.lastUsed := by
  unfold pickUp
  cases c.state with
  | opening loader retry =>
    dsimp only
    obtain ⟨r, u, hr, -⟩ | hr | hr := s.tryRecv_cases loader
    · rw [hr]
      obtain e | ⟨src, frame⟩ := r
      · cases e <;> rfl
      · rfl
    · rw [hr]
    · rw [hr]
  | _ => rfl

theorem pollReady_lastUsed (s : Sys σ) (now : Instant) (c : Cover σ) :
    (s.pollReady now c).1.lastUsed = c.lastUsed := by
  unfold pollReady
  cases c.state with
  | ready src =>
    dsimp only
    split_ifs
    · obtain ⟨e | _ | f, src'⟩ := Source.poll src now <;> rfl
    · rfl
  | _ => rfl

theorem advance_lastUsed (s : Sys σ) (env : Env) (play : PlayParams) (now : Instant)
    (c : Cover σ) : (s.advance env play now c).1.lastUsed = now := by
  unfold advance
  dsimp only
  rw [pollReady_lastUsed, pickUp_lastUsed, retryMissing_lastUsed]

theorem resolve_lastUses (s : Sys σ) (env : Env) {play : PlayParams} (now : Instant)
    (hpath : play.path ≠ "") :
    (s.resolve env play now).1.lastUses = Function.update s.lastUses play (some now) := by
  obtain ⟨c, -, hresolve⟩ := s.resolve_eq env now hpath
  have hpresent (u : Sys σ) (d : Cover σ) :
      (u.present play d).1.lastUses = (u.setCover play d).lastUses := by
    unfold lastUses
    rw [present_reg]
  rw [hresolve, hpresent, setCover_lastUses, advance_lastUsed,
    (advance_sameReg _ env play now c).lastUses_eq]
  unfold ensure
  split_ifs
  · rfl
  · rw [start_lastUses, Function.update_idem]

/-! ### Runs -/

theorem step_lastUses (s : Sys σ) (e : Event σ) :
    (s.step e).1.lastUses = IdleCache.run evictAfter s.lastUses (s.ops e) := by
  cases e with
  | setSettings env settings error now => exact s.setSettings_lastUses env settings error now
  | warm env play now =>
    show (s.warm env play now).lastUses = IdleCache.run _ _ (if play.path = "" then [] else _)
    -- without a path there is nothing to use
    split_ifs with hpath
    · unfold warm
      rw [if_pos (.inl hpath)]
      rfl
    · exact s.warm_lastUses env now hpath
  | beginFrame => exact (reap_behind _).reg.lastUses_eq
  | resolve env play now =>
    show (s.resolve env play now).1.lastUses = IdleCache.run _ _ (if play.path = "" then [] else _)
    split_ifs with hpath
    · unfold resolve
      rw [if_pos hpath]
      rfl
    · exact s.resolve_lastUses env now hpath
  | endFrame env now => exact s.endFrame_lastUses env now
  | deliver t opened polls => exact (send_sameReg s t _).lastUses_eq
  | crash t => exact (send_sameReg s t _).lastUses_eq
  | finish t => exact (finish_sameReg s t).lastUses_eq

/-- Over a run, the covers are what the cache keeps. -/
theorem run_lastUses (s : Sys σ) (es : List (Event σ)) :
    (run step s es).lastUses = IdleCache.run evictAfter s.lastUses (collect step ops s es) := by
  induction es generalizing s with
  | nil => rfl
  | cons e es ih => rw [run_cons, ih, step_lastUses, collect, IdleCache.run_append]

/-! ### Which covers are kept -/

def Event.time : Event σ → Option Instant
  | .setSettings _ _ _ now => some now
  | .warm _ _ now => some now
  | .resolve _ _ now => some now
  | .endFrame _ now => some now
  | _ => none

/-- The cover is shown at this time, or warmed. -/
def Event.Uses (e : Event σ) (p : PlayParams) (t : Instant) : Prop :=
  (∃ env, e = .warm env p t) ∨ ∃ env, e = .resolve env p t

/-- **Covers are kept while they are used.** -/
structure KeptWhileUsed (s : Sys σ) (es : List (Event σ)) : Prop where
  /-- A cover that was shown is there for `evictAfter`, unless the settings change. -/
  shown : ∀ a env p t b, es = a ++ .resolve env p t :: b → p.path ≠ "" →
    Admits step (fun u e => ¬ u.Changes e) (run step s (a ++ [.resolve env p t])) b →
    (∀ e ∈ b, ∀ now, e.time = some now → t ≤ now ∧ now - t < evictAfter) →
    p ∈ (run step s es).reg.covers
  /-- At the end of a frame a cover is there only if it was used that recently under the same
  settings, or if it is the default one. -/
  idle : ∀ a env now, es = a ++ [.endFrame env now] → ∀ p ∈ (run step s es).reg.covers,
    p = ((run step s es).settings env).defaultPlay ∨
      ∃ b e c t, a = b ++ e :: c ∧ e.Uses p t ∧ now - t < evictAfter
        ∧ Admits step (fun u e => ¬ u.Changes e) (run step s (b ++ [e])) c
  /-- The default cover is there from the first settings on. -/
  default : ∀ settings, (run step s es).reg.settings = some settings →
    settings.defaultPlay.path ≠ "" → settings.defaultPlay ∈ (run step s es).reg.covers

/-- What an operation of the cache comes from. -/
inductive Comes (s : Sys σ) : Event σ → IdleCache.Op PlayParams → Prop where
  | clear {e} (h : s.Changes e) : Comes s e .clear
  | prewarm (env settings error now) :
      Comes s (.setSettings env settings error now) (.load settings.defaultPlay now)
  | warm (env play now) : Comes s (.warm env play now) (.load play now)
  | shown (env play now) : Comes s (.resolve env play now) (.use play now)
  | expire (env now) : Comes s (.endFrame env now) (.expire (s.settings env).defaultPlay now)

omit [Source σ] in
theorem comes_of_mem_ops {s : Sys σ} {e : Event σ} {op : IdleCache.Op PlayParams} (h : op ∈ s.ops e) :
    s.Comes e op := by
  -- which events an operation can come from
  cases e with
  | setSettings env settings error now =>
    rw [ops] at h
    split_ifs at h with hsame hpath
    · cases h
    · obtain rfl := List.mem_singleton.mp h
      exact .clear hsame
    · obtain rfl | h := List.mem_cons.mp h
      -- the reset, and then the default's use
      · exact .clear hsame
      · obtain rfl := List.mem_singleton.mp h
        exact .prewarm env settings error now
  | warm env play now =>
    simp only [ops] at h
    split_ifs at h
    · cases h
    · obtain rfl := List.mem_singleton.mp h
      exact .warm env play now
  | resolve env play now =>
    simp only [ops] at h
    split_ifs at h
    · cases h
    · obtain rfl := List.mem_singleton.mp h
      exact .shown env play now
  | endFrame env now =>
    obtain rfl := List.mem_singleton.mp h
    exact .expire env now
  | _ => cases h

omit [Source σ] in
theorem clear_mem_ops {s : Sys σ} {e : Event σ} : .clear ∈ s.ops e ↔ s.Changes e := by
  constructor
  · intro h
    cases comes_of_mem_ops h with
    | clear hchanges => exact hchanges
  · intro h
    cases e with
    | setSettings env settings error now =>
      rw [ops, if_neg h]
      split_ifs <;> exact List.mem_cons_self ..
    | _ => cases h

theorem clear_not_mem_collect {s : Sys σ} {es : List (Event σ)} :
    .clear ∉ collect step ops s es ↔ Admits step (fun u e => ¬ u.Changes e) s es := by
  induction es generalizing s with
  | nil => exact iff_of_true List.not_mem_nil trivial
  | cons e es ih =>
    rw [collect, List.mem_append, not_or, clear_mem_ops, ih, admits_cons]

theorem shown_kept (s : Sys σ) (env : Env) {p : PlayParams} {t : Instant} {es : List (Event σ)}
    (hpath : p.path ≠ "")
    (hchanges : Admits step (fun u e => ¬ u.Changes e) (s.resolve env p t).1 es)
    (htime : ∀ e ∈ es, ∀ now, e.time = some now → t ≤ now ∧ now - t < evictAfter) :
    p ∈ (run step (s.resolve env p t).1 es).reg.covers := by
  -- every operation of the run comes from one of its events
  have hfrom {op : IdleCache.Op PlayParams} (hop : op ∈ collect step ops (s.resolve env p t).1 es) :
      ∃ u, ∃ e ∈ es, Comes u e op := by
    obtain ⟨xs, ys, hsplit⟩ := List.append_of_mem hop
    obtain ⟨a, e, b, ys', rfl, hmem, -⟩ := collect_split hsplit
    exact ⟨_, e, List.mem_append_right a (List.mem_cons_self ..), comes_of_mem_ops hmem⟩
  rw [mem_covers_iff, run_lastUses]
  have hshown : (s.resolve env p t).1.lastUses p = some t := by
    rw [s.resolve_lastUses env t hpath, Function.update_self]
  -- no event clears the table or goes back, and none expires the cover
  refine (IdleCache.run_kept hshown le_rfl (clear_not_mem_collect.mpr hchanges)
    (fun now hop => by
      obtain ⟨u, e, he, hcomes⟩ := hfrom hop
      cases hcomes with
      | shown env => exact (htime _ he now rfl).1)
    (fun q now hop => by
      obtain ⟨u, e, he, hcomes⟩ := hfrom hop
      cases hcomes with
      | expire env => exact .inr (htime _ he now rfl).2)).imp fun _ h => h.1

theorem step_settings_kept {s : Sys σ} {e : Event σ} (hchange : ¬ s.Changes e) :
    (s.step e).1.reg.settings = s.reg.settings := by
  cases e with
  | setSettings env settings error now =>
    rw [not_not.mp hchange]
    exact s.setSettings_settings env settings error now
  | _ => exact s.step_settings fun _ _ _ _ h => by cases h

/-- Without a change the settings stay. -/
theorem settings_kept {s : Sys σ} {es : List (Event σ)} {settings : Settings}
    (hchanges : Admits step (fun u e => ¬ u.Changes e) s es) (hs : s.reg.settings = some settings) :
    (run step s es).reg.settings = some settings := by
  induction es generalizing s with
  | nil => exact hs
  | cons e es ih =>
    exact ih hchanges.2 ((step_settings_kept hchanges.1).trans hs)

/-- A cover that is there at the end of a frame is the default one, or was used lately. -/
theorem idle_dropped (s : Sys σ) (hs : s.lastUses = fun _ => none) (es : List (Event σ)) (env : Env)
    (now : Instant) {p : PlayParams}
    (hp : p ∈ (run step s (es ++ [.endFrame env now])).reg.covers) :
    p = ((run step s (es ++ [.endFrame env now])).settings env).defaultPlay ∨
      ∃ b e c t, es = b ++ e :: c ∧ e.Uses p t ∧ now - t < evictAfter
        ∧ Admits step (fun u e => ¬ u.Changes e) (run step s (b ++ [e])) c := by
  have hsettings : (run step s (es ++ [.endFrame env now])).reg.settings
      = (run step s es).reg.settings := by
    rw [run_concat]
    exact step_settings_kept id
  obtain ⟨t, ht⟩ := (mem_covers_iff _ p).mp hp
  rw [run_concat] at ht
  obtain ⟨ht, hrecent⟩ := IdleCache.expire_some (((run step s es).endFrame_lastUses env now) ▸ ht)
  -- kept as the default, or by a recent use
  obtain hdefault | hrecent := hrecent
  · left
    rw [hdefault, settings, settings, hsettings]
  rw [run_lastUses] at ht
  obtain ⟨hnone, -⟩ | ⟨xs, op, ys, hsplit, hsets, hclear⟩ := IdleCache.run_some ht
  · rw [hs] at hnone
    cases hnone
  -- the event of that use, and what came after it
  obtain ⟨a, e, b, ys', rfl, hop, rfl⟩ := collect_split hsplit
  have hchanges := clear_not_mem_collect.mp fun h => hclear (List.mem_append_right ys' h)
  have hrun : run step s (a ++ [e]) = (step (run step s a) e).1 := run_concat s a e
  -- only a use can have set the time
  cases comes_of_mem_ops hop with
  | clear h => obtain h | h := hsets <;> cases h
  | expire env now => obtain h | h := hsets <;> cases h
  | warm env' play now' =>
    obtain h | h := hsets <;> cases h
    exact .inr ⟨a, _, b, t, rfl, .inl ⟨env', rfl⟩, hrecent, hrun ▸ hchanges⟩
  | shown env' play now' =>
    obtain h | h := hsets <;> cases h
    exact .inr ⟨a, _, b, t, rfl, .inr ⟨env', rfl⟩, hrecent, hrun ▸ hchanges⟩
  | prewarm env' settings' error now' =>
    obtain h | h := hsets <;> cases h
    -- the settings are still those that it was warmed with
    left
    have hset := settings_kept hchanges ((run step s a).setSettings_settings env' settings' error t)
    rw [settings, hsettings, run_append, run_cons, hset]
    rfl

/-- The default cover is there. -/
def DefaultThere (s : Sys σ) : Prop :=
  ∀ settings, s.reg.settings = some settings → settings.defaultPlay.path ≠ "" →
    settings.defaultPlay ∈ s.reg.covers

theorem step_default {s : Sys σ} (h : s.DefaultThere) (e : Event σ) : (s.step e).1.DefaultThere := by
  intro settings hs hpath
  rw [mem_covers_iff, step_lastUses]
  -- new settings clear the table and warm their default
  by_cases hchange : s.Changes e
  · cases e with
    | setSettings env settings' error now =>
      obtain rfl : settings' = settings :=
        Option.some.inj ((s.setSettings_settings env settings' error now).symm.trans hs)
      rw [ops, if_neg hchange, if_neg hpath]
      exact ⟨now, Function.update_self ..⟩
    | _ => cases hchange
  · have hsame : s.reg.settings = some settings := (step_settings_kept hchange).symm.trans hs
    obtain ⟨t, ht⟩ := (s.mem_covers_iff _).mp (h settings hsame hpath)
    -- under the old ones the default is never expired
    refine (IdleCache.run_kept ht t.zero_le (fun hclear => hchange (clear_mem_ops.mp hclear))
      (fun now _ => now.zero_le) fun pinned now hop => .inl ?_).imp fun _ h => h.1
    cases comes_of_mem_ops hop with
    | expire env =>
      rw [Sys.settings, hsame]
      rfl

/-- A cover is kept while it is shown and for as long as `evictAfter` after that, the default cover for
good, and no other cover is there at the end of a frame. -/
theorem covers_kept_while_used (defaults : Settings) (es : List (Event σ)) :
    KeptWhileUsed (Sys.init defaults) es where
  shown a env p t b hes hpath hchanges htime := by
    subst hes
    rw [run_concat] at hchanges
    rw [run_append, run_cons]
    exact shown_kept _ env hpath hchanges htime
  idle a env now hes p hp := by
    subst hes
    exact idle_dropped _ rfl a env now hp
  default := by
    have hinit : (Sys.init defaults : Sys σ).DefaultThere := nofun
    exact Machine.invariant (I := DefaultThere) (fun _ e h => step_default h e) hinit es

end Sys

end NoshareCover
