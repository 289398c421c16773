import NoshareCover.Core.Extra
import NoshareCover.Lib.Run
import Mathlib.Algebra.BigOperators.Group.Finset.Piecewise

/-!
# API clients do not interfere

Every client could be alone: what it holds after any sequence of calls is what its own calls make
of nothing (`held_run`), so what `for_monitor` shows of it is a map from monitors to rects that its
own calls write (`reference`).
-/

namespace NoshareCover

namespace Extra

/-! ### A client on its own -/

/-- The call is one of the client's own, when the next id to be given out is `next`. -/
def Clients.Call.by (id next : ℕ) : Clients.Call → Bool
  | .register _ => next = id
  | .unregister i => i = id
  | .setRects i _ _ => i = id
  | .clearClient i => i = id
  | .legacyClear => id = legacyClient
  | .legacyAdd .. => id = legacyClient

def Clients.Call.next (next : ℕ) : Clients.Call → ℕ
  | .register _ => next + 1
  | _ => next

open Clients (Call)

/-- The calls of one client among those of all. -/
def ownCalls (id : ℕ) : ℕ → List Call → List Call
  | _, [] => []
  | next, call :: calls =>
    if call.by id next then call :: ownCalls id (call.next next) calls
    else ownCalls id (call.next next) calls

/-- What one of its own calls does to a client; `none` is a client that does not exist. -/
def ownStep (held : Option (List MonitorRect)) : Call → Option (List MonitorRect)
  | .register _ => some []
  | .unregister _ => none
  | .setRects _ monitor rects => held.map (replaceRects · monitor rects)
  | .clearClient _ => held.map fun _ => []
  | .legacyClear => some []
  | .legacyAdd monitor x y w h rounding =>
    match CoverRect.sane { x, y, w, h, rounding, window := 0, fill := .black } with
    | none => held
    | some rect => some (addRect (held.getD []) { monitor, rect })

def onMonitor (held : List MonitorRect) (monitor : ℤ) : List CoverRect :=
  (held.filter (·.monitor = monitor)).map MonitorRect.rect

namespace Clients

/-- What a client holds. -/
def held (c : Clients) (id : ℕ) : Option (List MonitorRect) :=
  (c.list.find? (·.id = id)).map Client.rects

/-- What `for_monitor` has from a client. -/
def fromClient (c : Clients) (id : ℕ) (monitor : ℤ) : List CoverRect :=
  onMonitor ((c.list.filter (·.id = id)).flatMap Client.rects) monitor

/-! ### The list of clients -/

/-- No two clients have one id, and no client has an id that is still to be given out. -/
structure WellFormed (c : Clients) : Prop where
  nodup : (c.list.map Client.id).Nodup
  fresh : ∀ cl ∈ c.list, cl.id < c.nextId
  legacy : legacyClient < c.nextId

theorem clientMut_eq_none {id : ℕ} {f : List MonitorRect → List MonitorRect} {l : List Client} :
    clientMut id f l = none ↔ l.find? (·.id = id) = none := by
  induction l with
  | nil => simp [clientMut]
  | cons cl l ih =>
    rw [clientMut, List.find?_cons]
    by_cases h : cl.id = id
    · simp [h]
    · simp [h, ih]

theorem clientMut_ids {id : ℕ} {f : List MonitorRect → List MonitorRect} {l l' : List Client}
    (h : clientMut id f l = some l') : l'.map Client.id = l.map Client.id := by
  induction l generalizing l' with
  | nil => cases h
  | cons cl l ih =>
    rw [clientMut] at h
    split_ifs at h
    · obtain rfl := Option.some.inj h
      rfl
    · obtain ⟨rest, hrest, rfl⟩ := Option.map_eq_some_iff.1 h
      rw [List.map_cons, List.map_cons, ih hrest]

theorem clientMut_find {id : ℕ} {f : List MonitorRect → List MonitorRect} {l l' : List Client}
    (h : clientMut id f l = some l') (id' : ℕ) :
    (l'.find? (·.id = id')).map Client.rects =
      if id' = id then ((l.find? (·.id = id)).map Client.rects).map f
      else (l.find? (·.id = id')).map Client.rects := by
  induction l generalizing l' with
  | nil => cases h
  | cons cl l ih =>
    rw [clientMut] at h
    -- the client is the first, or further back
    split_ifs at h with hcl
    · obtain rfl := Option.some.inj h
      by_cases hid : id' = id
      · subst hid
        simp [hcl]
      · have hne : cl.id ≠ id' := fun heq => hid (by rw [← heq, hcl])
        simp [hid, hne]
    -- the head is another client, and stays
    · obtain ⟨rest, hrest, rfl⟩ := Option.map_eq_some_iff.1 h
      have hrest' := ih hrest
      rw [List.find?_cons, List.find?_cons, List.find?_cons]
      by_cases hid : cl.id = id'
      · have hne : id' ≠ id := fun heq => hcl (by rw [hid, heq])
        simp [hid, hne]
      · simp only [hid, hcl, decide_false]
        exact hrest'

/-- What a write does: the client's rects change, nobody else's do, and it succeeds exactly when the
client is there. -/
theorem write_spec (c : Clients) (id : ℕ) (f : List MonitorRect → List MonitorRect) :
    (∀ id', (c.write id f).1.held id' = if id' = id then (c.held id).map f else c.held id')
      ∧ (c.write id f).2 = (c.held id).isSome ∧ (c.write id f).1.nextId = c.nextId
      ∧ (c.write id f).1.list.map Client.id = c.list.map Client.id := by
  unfold write held
  -- an unknown id changes nothing
  cases h : clientMut id f c.list with
  | none =>
    have hnone := clientMut_eq_none.1 h
    refine ⟨fun id' => ?_, by simp [hnone], rfl, rfl⟩
    by_cases hid : id' = id
    · simp [hid, hnone]
    · simp [hid]
  | some l =>
    refine ⟨clientMut_find h, ?_, rfl, clientMut_ids h⟩
    -- what was found under the id has rectangles
    cases hfind : c.list.find? (·.id = id) with
    | none =>
      rw [clientMut_eq_none.2 hfind] at h
      cases h
    | some cl => rfl

theorem WellFormed.of_ids {c d : Clients} (h : c.WellFormed) (hnext : d.nextId = c.nextId)
    (hids : d.list.map Client.id = c.list.map Client.id) : d.WellFormed := by
  refine ⟨by rw [hids]; exact h.nodup, fun cl hcl => ?_, by rw [hnext]; exact h.legacy⟩
  have hmem : cl.id ∈ c.list.map Client.id := by
    rw [← hids]
    exact List.mem_map_of_mem hcl
  obtain ⟨cl', hcl', heq⟩ := List.mem_map.1 hmem
  rw [hnext, ← heq]
  exact h.fresh cl' hcl'

/-- A client with a new id at the end of the list. -/
theorem held_append {c : Clients} {cl : Client} (hnew : ∀ cl' ∈ c.list, cl'.id ≠ cl.id) (n id : ℕ) :
    held { list := c.list ++ [cl], nextId := n } id =
      if id = cl.id then some cl.rects else c.held id := by
  unfold held
  rw [List.find?_append]
  -- a new client is found under its own id only
  by_cases hid : id = cl.id
  · have hnone : c.list.find? (·.id = id) = none := by
      simp only [List.find?_eq_none, decide_eq_true_eq]
      intro cl' hcl'
      rw [hid]
      exact hnew cl' hcl'
    rw [hnone, if_pos hid]
    simp [hid]
  · have hne : cl.id ≠ id := fun heq => hid heq.symm
    rw [if_neg hid]
    simp [hne]

theorem WellFormed.append {c : Clients} (h : c.WellFormed) {cl : Client} {n : ℕ}
    (hnew : ∀ cl' ∈ c.list, cl'.id ≠ cl.id) (hn : c.nextId ≤ n) (hcl : cl.id < n) :
    WellFormed { list := c.list ++ [cl], nextId := n } := by
  refine ⟨?_, fun cl' hcl' => ?_, lt_of_lt_of_le h.legacy hn⟩
  · rw [List.map_append, List.nodup_append]
    refine ⟨h.nodup, by simp, ?_⟩
    rintro a ha b hb rfl
    obtain ⟨cl', hcl', rfl⟩ := List.mem_map.1 ha
    exact hnew cl' hcl' (by simpa using hb)
  · rcases List.mem_append.1 hcl' with hmem | hmem
    · exact lt_of_lt_of_le (h.fresh cl' hmem) hn
    · obtain rfl := List.mem_singleton.1 hmem
      exact hcl

theorem held_eq_none {c : Clients} {id : ℕ} : c.held id = none ↔ ∀ cl ∈ c.list, cl.id ≠ id := by
  unfold held
  rw [Option.map_eq_none_iff, List.find?_eq_none]
  simp

/-- The legacy client is there, empty if it was not. -/
theorem withLegacy_spec {c : Clients} (h : c.WellFormed) :
    c.withLegacy.WellFormed ∧ c.withLegacy.nextId = c.nextId ∧
      ∀ id, c.withLegacy.held id =
        if id = legacyClient then some ((c.held id).getD []) else c.held id := by
  unfold withLegacy
  -- the legacy client is there already
  by_cases hany : c.list.any (·.id = legacyClient) = true
  · rw [if_pos hany]
    refine ⟨h, rfl, fun id => ?_⟩
    by_cases hid : id = legacyClient
    · subst hid
      have hsome : c.held legacyClient ≠ none := by
        rw [Ne, held_eq_none]
        intro hnone
        obtain ⟨cl, hcl, heq⟩ := List.any_eq_true.1 hany
        exact hnone cl hcl (of_decide_eq_true heq)
      obtain ⟨rects, hrects⟩ := Option.ne_none_iff_exists'.1 hsome
      rw [if_pos rfl, hrects, Option.getD_some]
    · rw [if_neg hid]
  -- it is made, with no rectangles
  · rw [if_neg hany]
    have hnew : ∀ cl ∈ c.list, cl.id ≠ legacyClient := by
      intro cl hcl heq
      exact hany (List.any_eq_true.2 ⟨cl, hcl, decide_eq_true heq⟩)
    refine ⟨h.append hnew le_rfl h.legacy, rfl, fun id => ?_⟩
    rw [held_append hnew]
    by_cases hid : id = legacyClient
    · subst hid
      rw [if_pos rfl, if_pos rfl, held_eq_none.2 hnew]
      rfl
    · rw [if_neg hid, if_neg hid]

theorem legacy_spec {c : Clients} (h : c.WellFormed) (f : List MonitorRect → List MonitorRect) :
    (c.legacy f).WellFormed ∧ (c.legacy f).nextId = c.nextId ∧
      ∀ id, (c.legacy f).held id =
        if id = legacyClient then some (f ((c.held id).getD [])) else c.held id := by
  obtain ⟨hwf, hnext, hheld⟩ := withLegacy_spec h
  obtain ⟨hwrite, -, hnext', hids⟩ := c.withLegacy.write_spec legacyClient f
  refine ⟨hwf.of_ids hnext' hids, hnext'.trans hnext, fun id => ?_⟩
  show (c.withLegacy.write legacyClient f).1.held id = _
  rw [hwrite, hheld, hheld]
  by_cases hid : id = legacyClient
  · subst hid
    simp
  · simp [hid]

theorem held_unregister (c : Clients) (id id' : ℕ) :
    (c.unregister id).held id' = if id' = id then none else c.held id' := by
  by_cases hid : id' = id
  · subst hid
    -- its own entry is filtered out
    rw [if_pos rfl, held_eq_none]
    intro cl hcl
    have hne := (List.mem_filter.1 hcl).2
    simpa using hne
  · rw [if_neg hid]
    unfold held unregister
    rw [List.find?_filter]
    -- the filter takes away no other client
    congr 2
    funext cl
    by_cases hcl : cl.id = id'
    · simp [hcl, hid]
    · simp [hcl]

/-- A call that writes one client's rects. -/
theorem write_call {c : Clients} (h : c.WellFormed) {call : Call} (i : ℕ)
    (f : List MonitorRect → List MonitorRect) (hstep : (c.step call).1 = (c.write i f).1)
    (hnext : call.next c.nextId = c.nextId) (hby : ∀ id, call.by id c.nextId = decide (i = id))
    (hown : ∀ held, ownStep held call = held.map f) :
    (c.step call).1.WellFormed ∧ (c.step call).1.nextId = call.next c.nextId ∧
      ∀ id, (c.step call).1.held id =
        if call.by id c.nextId then ownStep (c.held id) call else c.held id := by
  obtain ⟨hheld, -, hnext', hids⟩ := c.write_spec i f
  rw [hstep, hnext]
  refine ⟨h.of_ids hnext' hids, hnext', fun id => ?_⟩
  rw [hheld, hby, hown]
  by_cases hid : id = i
  · simp [hid]
  · have hne : i ≠ id := fun heq => hid heq.symm
    simp [hid, hne]

/-- A call that writes the legacy client's. -/
theorem legacy_call {c : Clients} (h : c.WellFormed) {call : Call}
    (f : List MonitorRect → List MonitorRect) (hstep : (c.step call).1 = c.legacy f)
    (hnext : call.next c.nextId = c.nextId)
    (hby : ∀ id, call.by id c.nextId = decide (id = legacyClient))
    (hown : ∀ held, ownStep held call = some (f (held.getD []))) :
    (c.step call).1.WellFormed ∧ (c.step call).1.nextId = call.next c.nextId ∧
      ∀ id, (c.step call).1.held id =
        if call.by id c.nextId then ownStep (c.held id) call else c.held id := by
  obtain ⟨hwf, hnext', hheld⟩ := legacy_spec h f
  rw [hstep, hnext]
  refine ⟨hwf, hnext', fun id => ?_⟩
  rw [hheld, hby, hown]
  by_cases hid : id = legacyClient <;> simp [hid]

/-- **One call**: it does to its own client what it does to the client alone, and nothing to the
others. -/
theorem step_spec {c : Clients} (h : c.WellFormed) (call : Call) :
    (c.step call).1.WellFormed ∧ (c.step call).1.nextId = call.next c.nextId ∧
      ∀ id, (c.step call).1.held id =
        if call.by id c.nextId then ownStep (c.held id) call else c.held id := by
  cases call with
  | register name =>
    -- ids are given out in order
    have hnew : ∀ cl ∈ c.list, cl.id ≠ c.nextId := fun cl hcl => (h.fresh cl hcl).ne
    refine ⟨h.append hnew (Nat.le_succ _) (Nat.lt_succ_self _), rfl, fun id => ?_⟩
    show held { list := c.list ++ [_], nextId := _ } id = _
    rw [held_append hnew]
    by_cases hid : id = c.nextId
    · subst hid
      simp [Call.by, ownStep]
    · have hne : c.nextId ≠ id := fun heq => hid heq.symm
      simp [Call.by, hid, hne]
  | unregister i =>
    refine ⟨⟨?_, fun cl hcl => ?_, h.legacy⟩, rfl, fun id => ?_⟩
    · exact h.nodup.sublist (List.Sublist.map _ List.filter_sublist)
    · exact h.fresh cl (List.mem_filter.1 hcl).1
    · show (c.unregister i).held id = _
      rw [held_unregister]
      by_cases hid : id = i
      · simp [Call.by, ownStep, hid]
      · have hne : i ≠ id := fun heq => hid heq.symm
        simp [Call.by, hid, hne]
  | setRects i monitor rects =>
    exact write_call h i (replaceRects · monitor rects) rfl rfl (fun _ => rfl) fun _ => rfl
  | clearClient i =>
    exact write_call h i (fun _ => []) rfl rfl (fun _ => rfl) fun _ => rfl
  | legacyClear => exact legacy_call h (fun _ => []) rfl rfl (fun _ => rfl) fun _ => rfl
  | legacyAdd monitor x y w h' rounding =>
    cases hsane : CoverRect.sane { x, y, w, h := h', rounding, window := 0, fill := .black } with
    | none =>
      -- a rect that is not sane is dropped without a trace
      have hsame : (c.step (.legacyAdd monitor x y w h' rounding)).1 = c := by
        simp [step, legacyAdd, hsane]
      rw [hsame]
      refine ⟨h, rfl, fun id => ?_⟩
      by_cases hid : id = legacyClient
      · simp [Call.by, ownStep, hid, hsane]
      · simp [Call.by, hid]
    | some rect =>
      refine legacy_call h (addRect · { monitor, rect }) ?_ rfl (fun _ => rfl) fun held => ?_
      · simp [step, legacyAdd, hsane]
      · simp [ownStep, hsane]

/-- **Any number of calls**: what a client holds is what its own calls make of what it held. -/
theorem held_run {c : Clients} (h : c.WellFormed) (calls : List Call) :
    (Machine.run step c calls).WellFormed ∧
      ∀ id, (Machine.run step c calls).held id =
        (ownCalls id c.nextId calls).foldl ownStep (c.held id) := by
  induction calls generalizing c with
  | nil => exact ⟨h, fun _ => rfl⟩
  | cons call calls ih =>
    obtain ⟨hwf, hnext, hheld⟩ := step_spec h call
    obtain ⟨hwf', hheld'⟩ := ih hwf
    refine ⟨hwf', fun id => ?_⟩
    rw [Machine.run_cons, hheld', hheld, hnext, ownCalls]
    split_ifs <;> rfl

theorem wellFormed_init : init.WellFormed :=
  ⟨List.nodup_nil, fun _ h => absurd h List.not_mem_nil, Nat.lt_succ_self _⟩

/-! ### What a client shows -/

theorem filter_id {l : List Client} (h : (l.map Client.id).Nodup) (id : ℕ) :
    l.filter (·.id = id) = (l.find? (·.id = id)).toList := by
  induction l with
  | nil => rfl
  | cons cl l ih =>
    rw [List.map_cons, List.nodup_cons] at h
    rw [List.find?_cons]
    by_cases hcl : cl.id = id
    · -- no other client has this id
      have hnone : l.filter (·.id = id) = [] := by
        rw [List.filter_eq_nil_iff]
        intro cl' hcl' heq
        have hid : cl'.id = id := of_decide_eq_true heq
        exact h.1 (by rw [hcl, ← hid]; exact List.mem_map_of_mem hcl')
      rw [List.filter_cons_of_pos (by simpa using hcl), hnone]
      simp [hcl]
    · rw [List.filter_cons_of_neg (by simpa using hcl), ih h.2]
      simp [hcl]

theorem fromClient_eq {c : Clients} (h : c.WellFormed) (id : ℕ) (monitor : ℤ) :
    c.fromClient id monitor = onMonitor ((c.held id).getD []) monitor := by
  unfold fromClient held
  rw [filter_id h.nodup]
  cases c.list.find? (·.id = id) with
  | none => rfl
  | some cl => simp

/-- `for_monitor` is what is there from each client. -/
theorem forMonitor_eq {c : Clients} (h : c.WellFormed) (monitor : ℤ) :
    c.forMonitor monitor = (c.list.map Client.id).flatMap fun id => c.fromClient id monitor := by
  have hfrom : ∀ cl ∈ c.list, c.fromClient cl.id monitor = onMonitor cl.rects monitor := by
    intro cl hcl
    have hmem : cl ∈ c.list.filter (·.id = cl.id) := List.mem_filter.2 ⟨hcl, by simp⟩
    rw [filter_id h.nodup, Option.mem_toList] at hmem
    rw [fromClient_eq h, held, hmem]
    rfl
  unfold forMonitor
  rw [List.flatMap_map, List.filter_flatMap, List.map_flatMap]
  exact List.flatMap_congr fun cl hcl => (hfrom cl hcl).symm

end Clients

/-! ### The map a client writes -/

/-- The client is registered: of the calls that register and unregister it, the last one did.  The
newest call comes first. -/
def registered : List Call → Bool
  | [] => false
  | .register _ :: _ => true
  | .unregister _ :: _ => false
  | _ :: older => registered older

/-- The monitors the client has set rects on since it was last cleared. -/
def monitors : List Call → Finset ℤ
  | .setRects _ monitor _ :: older => insert monitor (monitors older)
  | _ => ∅

/-- What the client shows on each monitor: the sane rects of its last `set_rects` there since it was
last cleared, as many as it has room for besides those on the other monitors. -/
def reference : List Call → ℤ → List CoverRect
  | .setRects _ monitor rects :: older =>
    let elsewhere := ∑ m ∈ (monitors older).erase monitor, (reference older m).length
    Function.update (reference older) monitor
      ((rects.filterMap CoverRect.sane).take (maxRectsPerClient - elsewhere))
  | _ => fun _ => []

/-- A call of the old API. -/
def Clients.Call.isLegacy : Call → Bool
  | .legacyClear | .legacyAdd .. => true
  | _ => false

/-- What the client holds after its own calls, newest first. -/
def holds (calls : List Call) : Option (List MonitorRect) :=
  calls.foldr (fun call held => ownStep held call) none

theorem onMonitor_append (held held' : List MonitorRect) (monitor : ℤ) :
    onMonitor (held ++ held') monitor = onMonitor held monitor ++ onMonitor held' monitor := by
  unfold onMonitor
  rw [List.filter_append, List.map_append]

theorem onMonitor_others (held : List MonitorRect) {monitor m : ℤ} :
    onMonitor (held.filter (·.monitor ≠ monitor)) m =
      if m = monitor then [] else onMonitor held m := by
  unfold onMonitor
  rw [List.filter_filter]
  by_cases hm : m = monitor
  · subst hm
    rw [if_pos rfl, List.map_eq_nil_iff, List.filter_eq_nil_iff]
    simp
  · rw [if_neg hm]
    congr 2
    funext r
    by_cases hr : r.monitor = m
    · simp [hr, hm]
    · simp [hr]

theorem onMonitor_new (monitor m : ℤ) (rects : List CoverRect) :
    onMonitor (rects.map (MonitorRect.mk monitor)) m = if m = monitor then rects else [] := by
  unfold onMonitor
  by_cases hm : m = monitor
  · rw [if_pos hm, List.filter_eq_self.2 (by simp [hm]), List.map_map]
    exact List.map_id rects
  · rw [if_neg hm, List.filter_eq_nil_iff.2, List.map_nil]
    intro r hr
    obtain ⟨rect, -, rfl⟩ := List.mem_map.1 hr
    have hne : monitor ≠ m := fun heq => hm heq.symm
    simpa using hne

/-- Counted monitor by monitor. -/
theorem sum_onMonitor {held : List MonitorRect} {S : Finset ℤ} (h : ∀ r ∈ held, r.monitor ∈ S) :
    ∑ m ∈ S, (onMonitor held m).length = held.length := by
  induction held with
  | nil => exact Finset.sum_const_zero
  -- a rectangle counts on its own monitor and on no other
  | cons r held ih =>
    have hcons : ∀ m, (onMonitor (r :: held) m).length =
        (if m = r.monitor then 1 else 0) + (onMonitor held m).length := by
      intro m
      have hsplit := onMonitor_append [r] held m
      have hone := onMonitor_new r.monitor m [r.rect]
      rw [List.singleton_append] at hsplit
      rw [hsplit, List.length_append]
      congr 1
      rw [show [r] = [r.rect].map (MonitorRect.mk r.monitor) from rfl, hone]
      split_ifs <;> rfl
    rw [Finset.sum_congr rfl fun m _ => hcons m, Finset.sum_add_distrib,
      ih fun r' hr' => h r' (List.mem_cons_of_mem _ hr'), Finset.sum_ite_eq',
      if_pos (h r (List.mem_cons_self ..)), List.length_cons, Nat.add_comm]

/-- What the client's list of rects has to do with the map. -/
structure Holds (calls : List Call) (rects : List MonitorRect) : Prop where
  shows : ∀ m, onMonitor rects m = reference calls m
  within : ∀ r ∈ rects, r.monitor ∈ monitors calls

theorem holds_nil {call : Call} {older : List Call}
    (hreference : reference (call :: older) = fun _ => []) :
    Holds (call :: older) [] :=
  ⟨fun _ => by rw [hreference]; rfl, fun _ h => absurd h List.not_mem_nil⟩

theorem Holds.setRects {older : List Call} {held : List MonitorRect} (h : Holds older held) (id : ℕ)
    (monitor : ℤ) (rects : List CoverRect) :
    Holds (.setRects id monitor rects :: older) (replaceRects held monitor rects) := by
  -- what is kept is on the other monitors
  have hother : ∀ r ∈ held.filter (·.monitor ≠ monitor), r.monitor ∈ (monitors older).erase monitor := by
    intro r hr
    obtain ⟨hmem, hne⟩ := List.mem_filter.1 hr
    exact Finset.mem_erase.2 ⟨of_decide_eq_true hne, h.within r hmem⟩
  have helsewhere : (held.filter (·.monitor ≠ monitor)).length =
      ∑ m ∈ (monitors older).erase monitor, (reference older m).length := by
    rw [← sum_onMonitor hother]
    refine Finset.sum_congr rfl fun m hm => ?_
    rw [onMonitor_others, if_neg (Finset.ne_of_mem_erase hm), h.shows]
  refine ⟨fun m => ?_, fun r hr => ?_⟩
  · unfold replaceRects
    dsimp only
    rw [onMonitor_append, onMonitor_others, onMonitor_new, reference]
    -- the new rectangles on this monitor, the old ones elsewhere
    by_cases hm : m = monitor
    · rw [if_pos hm, if_pos hm, List.nil_append, hm, Function.update_self, helsewhere]
    · rw [if_neg hm, if_neg hm, List.append_nil, Function.update_of_ne hm, h.shows]
  · unfold replaceRects at hr
    rw [monitors, Finset.mem_insert]
    rcases List.mem_append.1 hr with hr | hr
    · exact .inr (h.within r (List.mem_filter.1 hr).1)
    · obtain ⟨rect, -, rfl⟩ := List.mem_map.1 hr
      exact .inl rfl

/-- **A client's own calls write its map**: it holds something exactly while it is registered, and
then what the map says. -/
theorem holds_spec {calls : List Call} (h : ∀ call ∈ calls, call.isLegacy = false) :
    ((holds calls).isSome = registered calls) ∧
      ∀ rects, holds calls = some rects → Holds calls rects := by
  induction calls with
  | nil => exact ⟨rfl, nofun⟩
  | cons call older ih =>
    obtain ⟨hsome, hholds⟩ := ih fun call' hcall' => h call' (List.mem_cons_of_mem _ hcall')
    have hcons : holds (call :: older) = ownStep (holds older) call := rfl
    rw [hcons]
    cases call with
    | register name =>
      -- every registration begins with nothing
      refine ⟨rfl, fun rects hrects => ?_⟩
      obtain rfl := Option.some.inj hrects
      exact holds_nil rfl
    | unregister id => exact ⟨rfl, nofun⟩
    | setRects id monitor rects =>
      refine ⟨by rw [ownStep, Option.isSome_map]; exact hsome, fun rects' hrects' => ?_⟩
      obtain ⟨held, hheld, rfl⟩ := Option.map_eq_some_iff.1 hrects'
      exact (hholds held hheld).setRects id monitor rects
    | clearClient id =>
      refine ⟨by rw [ownStep, Option.isSome_map]; exact hsome, fun rects' hrects' => ?_⟩
      obtain ⟨held, -, rfl⟩ := Option.map_eq_some_iff.1 hrects'
      exact holds_nil rfl
    | legacyClear => exact absurd (h _ (List.mem_cons_self ..)) (by decide)
    | legacyAdd monitor x y w h' rounding =>
      exact absurd (h _ (List.mem_cons_self ..)) (by simp [Clients.Call.isLegacy])

/-- `set_rects` leaves the other monitors alone. -/
theorem fromClient_setRects {c : Clients} (h : c.WellFormed) (id : ℕ) (monitor : ℤ)
    (rects : List CoverRect) (id' : ℕ) {monitor' : ℤ} (hne : monitor' ≠ monitor) :
    (c.setRects id monitor rects).1.fromClient id' monitor' = c.fromClient id' monitor' := by
  obtain ⟨hset, -, hnext, hids⟩ := c.write_spec id (replaceRects · monitor rects)
  show (c.write id (replaceRects · monitor rects)).1.fromClient id' monitor' = _
  rw [Clients.fromClient_eq (h.of_ids hnext hids), Clients.fromClient_eq h, hset]
  by_cases hid : id' = id
  · subst hid
    rw [if_pos rfl]
    cases c.held id' with
    | none => rfl
    | some held =>
      rw [Option.map_some, Option.getD_some, Option.getD_some, replaceRects, onMonitor_append,
        onMonitor_others, onMonitor_new, if_neg hne, if_neg hne, List.append_nil]
  · rw [if_neg hid]

/-! ### The limit -/

theorem length_replaceRects_le {held : List MonitorRect} (h : held.length ≤ maxRectsPerClient)
    (monitor : ℤ) (rects : List CoverRect) :
    (replaceRects held monitor rects).length ≤ maxRectsPerClient := by
  have hothers := List.length_filter_le (·.monitor ≠ monitor) held
  unfold replaceRects
  dsimp only
  rw [List.length_append, List.length_map, List.length_take]
  omega

theorem length_addRect_le {held : List MonitorRect} (h : held.length ≤ maxRectsPerClient)
    (rect : MonitorRect) : (addRect held rect).length ≤ maxRectsPerClient := by
  unfold addRect
  split_ifs with hroom
  · rw [List.length_append, List.length_singleton]
    omega
  · exact h

theorem ownStep_limit {held : Option (List MonitorRect)} (call : Call)
    (h : ∀ rects ∈ held, rects.length ≤ maxRectsPerClient) :
    ∀ rects ∈ ownStep held call, rects.length ≤ maxRectsPerClient := by
  intro rects hrects
  cases call with
  | register name =>
    obtain rfl := Option.some.inj hrects
    exact Nat.zero_le _
  | unregister id => cases hrects
  | setRects id monitor new =>
    obtain ⟨held', hheld', rfl⟩ := Option.map_eq_some_iff.1 hrects
    exact length_replaceRects_le (h held' hheld') monitor new
  | clearClient id =>
    obtain ⟨held', -, rfl⟩ := Option.map_eq_some_iff.1 hrects
    exact Nat.zero_le _
  | legacyClear =>
    obtain rfl := Option.some.inj hrects
    exact Nat.zero_le _
  | legacyAdd monitor x y w h' rounding =>
    rw [ownStep] at hrects
    -- a rectangle that is not sane is not added
    cases hsane : CoverRect.sane { x, y, w, h := h', rounding, window := 0, fill := .black } with
    | none =>
      rw [hsane] at hrects
      exact h rects hrects
    | some rect =>
      rw [hsane] at hrects
      obtain rfl := Option.some.inj hrects
      apply length_addRect_le
      -- the first one registers the client
      cases held with
      | none => exact Nat.zero_le _
      | some held' => exact h held' rfl

theorem run_limit (calls : List Call) {held : Option (List MonitorRect)}
    (h : ∀ rects ∈ held, rects.length ≤ maxRectsPerClient) :
    ∀ rects ∈ calls.foldl ownStep held, rects.length ≤ maxRectsPerClient := by
  induction calls generalizing held with
  | nil => exact h
  | cons call calls ih => exact ih (ownStep_limit call h)

/-! ### Ids -/

/-- The ids that `register` gave out. -/
def Clients.Reply.newId : Clients.Reply → Option ℕ
  | .id i => some i
  | _ => none

/-- Every new id is above all ids before. -/
theorem newIds_increase {c : Clients} (h : c.WellFormed) (calls : List Call) :
    ((Machine.outputs Clients.step c calls).filterMap Clients.Reply.newId).Pairwise (· < ·) ∧
      ∀ i ∈ (Machine.outputs Clients.step c calls).filterMap Clients.Reply.newId, c.nextId ≤ i := by
  induction calls generalizing c with
  | nil => simp
  | cons call calls ih =>
    obtain ⟨hwf, hnext, -⟩ := Clients.step_spec h call
    obtain ⟨hpairwise, hbound⟩ := ih hwf
    rw [hnext] at hbound
    rw [Machine.outputs_cons]
    cases call with
    | register name =>
      -- this id is the lowest from here on
      rw [List.filterMap_cons_some (show Clients.Reply.newId (c.step (.register name)).2 =
        some c.nextId from rfl)]
      refine ⟨List.pairwise_cons.2 ⟨fun i hi => hbound i hi, hpairwise⟩, fun i hi => ?_⟩
      rcases List.mem_cons.1 hi with rfl | hi
      · exact le_rfl
      · exact Nat.le_of_succ_le (hbound i hi)
    | _ => exact ⟨hpairwise, hbound⟩

/-- The ids that were given out are below the next one. -/
theorem newIds_lt {c : Clients} (h : c.WellFormed) (calls : List Call) :
    c.nextId ≤ (Machine.run Clients.step c calls).nextId ∧
      ∀ i ∈ (Machine.outputs Clients.step c calls).filterMap Clients.Reply.newId,
        i < (Machine.run Clients.step c calls).nextId := by
  induction calls generalizing c with
  | nil => simp
  | cons call calls ih =>
    obtain ⟨hwf, hnext, -⟩ := Clients.step_spec h call
    obtain ⟨hle, hlt⟩ := ih hwf
    rw [hnext] at hle
    rw [Machine.run_cons, Machine.outputs_cons]
    cases call with
    | register name =>
      -- only `register` takes an id
      have hle' : c.nextId + 1 ≤ _ := hle
      rw [List.filterMap_cons_some (show Clients.Reply.newId (c.step (.register name)).2 =
        some c.nextId from rfl)]
      refine ⟨by omega, fun i hi => ?_⟩
      rcases List.mem_cons.1 hi with rfl | hi
      · omega
      · exact hlt i hi
    | _ => exact ⟨hle, hlt⟩

theorem ownCalls_append (id next : ℕ) (calls calls' : List Call) :
    ownCalls id next (calls ++ calls') =
      ownCalls id next calls ++ ownCalls id (calls.foldl Clients.Call.next next) calls' := by
  induction calls generalizing next with
  | nil => rfl
  | cons call calls ih =>
    rw [List.cons_append, ownCalls, ownCalls, ih, List.foldl_cons]
    split_ifs <;> rfl

theorem nextId_run {c : Clients} (h : c.WellFormed) (calls : List Call) :
    (Machine.run Clients.step c calls).nextId = calls.foldl Clients.Call.next c.nextId := by
  induction calls generalizing c with
  | nil => rfl
  | cons call calls ih =>
    obtain ⟨hwf, hnext, -⟩ := Clients.step_spec h call
    rw [Machine.run_cons, ih hwf, hnext, List.foldl_cons]

/-- An id that was given out is not registered again. -/
theorem not_registered_again {id next : ℕ} (h : id < next) (older : List Call) :
    ∀ calls, registered older = false →
      registered ((ownCalls id next calls).reverse ++ older) = false := by
  intro calls
  induction calls generalizing next older with
  | nil => exact fun holder => holder
  | cons call calls ih =>
    intro holder
    -- the counter stays above `id`
    have hnext : id < call.next next := by
      cases call <;> simp only [Clients.Call.next] <;> omega
    rw [ownCalls]
    split_ifs with hby
    · rw [List.reverse_cons, List.append_assoc, List.singleton_append]
      apply ih hnext
      cases call with
      | register name =>
        -- a new client gets the counter's id, which is larger
        have heq : next = id := of_decide_eq_true hby
        omega
      | unregister i => rfl
      | _ => exact holder
    · exact ih hnext older holder

/-- **After `unregister` an id is gone for good.** -/
theorem unregistered_for_good {id : ℕ} (calls later : List Call)
    (hgiven : id ∈ (Machine.outputs Clients.step Clients.init calls).filterMap Clients.Reply.newId) :
    registered (ownCalls id (legacyClient + 1) (calls ++ .unregister id :: later)).reverse = false := by
  have hlt := (newIds_lt Clients.wellFormed_init calls).2 id hgiven
  rw [nextId_run Clients.wellFormed_init] at hlt
  rw [ownCalls_append, ownCalls, if_pos (by simp [Clients.Call.by]), List.reverse_append,
    List.reverse_cons, List.append_assoc, List.singleton_append]
  exact not_registered_again hlt (.unregister id :: _) later rfl

/-! ### All of it -/

theorem ownCalls_by {id next : ℕ} {calls : List Call} {call : Call}
    (h : call ∈ ownCalls id next calls) : ∃ n, call.by id n = true := by
  induction calls generalizing next with
  | nil => cases h
  | cons call' calls ih =>
    rw [ownCalls] at h
    split_ifs at h with hby
    · rcases List.mem_cons.1 h with rfl | h
      · exact ⟨next, hby⟩
      · exact ih h
    · exact ih h

/-- The calls of a plugin are not calls of the old API. -/
theorem ownCalls_not_legacy {id next : ℕ} {calls : List Call} (hid : id ≠ legacyClient) :
    ∀ call ∈ ownCalls id next calls, call.isLegacy = false := by
  intro call hcall
  obtain ⟨n, hby⟩ := ownCalls_by hcall
  cases call with
  | legacyClear => exact absurd (of_decide_eq_true hby) hid
  | legacyAdd monitor x y w h rounding => exact absurd (of_decide_eq_true hby) hid
  | _ => rfl

/-- **API clients do not interfere.**  After any calls by any clients: `for_monitor` is what is there
from each client; what is there from a client, and how many rects it holds, is what its own calls
make of nothing; from a plugin it is the map its own calls write while it is registered, and else
nothing; its writes succeed exactly while it is registered; `set_rects` changes no other monitor; no
id is given out twice; and one that was unregistered is not registered again. -/
theorem clients_do_not_interfere (calls : List Call) :
    let c := Machine.run Clients.step Clients.init calls
    let own := fun id => ownCalls id (legacyClient + 1) calls
    (c.list.map Client.id).Nodup ∧
    (∀ monitor, c.forMonitor monitor =
      (c.list.map Client.id).flatMap fun id => c.fromClient id monitor) ∧
    (∀ id monitor, c.fromClient id monitor =
      onMonitor (((own id).foldl ownStep none).getD []) monitor) ∧
    (∀ cl ∈ c.list, cl.rects.length ≤ maxRectsPerClient) ∧
    (∀ id ≠ legacyClient, ∀ monitor, c.fromClient id monitor =
      if registered (own id).reverse then reference (own id).reverse monitor else []) ∧
    (∀ id ≠ legacyClient, (∀ monitor rects,
      (c.setRects id monitor rects).2 = registered (own id).reverse) ∧
      (c.clearClient id).2 = registered (own id).reverse) ∧
    (∀ id monitor rects id' monitor', monitor' ≠ monitor →
      (c.setRects id monitor rects).1.fromClient id' monitor' = c.fromClient id' monitor') ∧
    ((Machine.outputs Clients.step Clients.init calls).filterMap
      Clients.Reply.newId).Pairwise (· < ·) ∧
    (∀ i ∈ (Machine.outputs Clients.step Clients.init calls).filterMap Clients.Reply.newId,
      legacyClient < i) ∧
    ∀ before later id, calls = before ++ .unregister id :: later →
      id ∈ (Machine.outputs Clients.step Clients.init before).filterMap Clients.Reply.newId →
      registered (own id).reverse = false := by
  intro c own
  obtain ⟨hwf, hheld⟩ := Clients.held_run Clients.wellFormed_init calls
  have hown : ∀ id, c.held id = (own id).foldl ownStep none := hheld
  have hfrom : ∀ id monitor, c.fromClient id monitor =
      onMonitor (((own id).foldl ownStep none).getD []) monitor := by
    intro id monitor
    rw [← hown]
    exact Clients.fromClient_eq hwf id monitor
  -- `holds` takes the latest call first
  have hholds : ∀ id, (own id).foldl ownStep none = holds (own id).reverse := by
    intro id
    unfold holds
    rw [List.foldr_reverse]
  have hspec : ∀ id ≠ legacyClient, _ := fun id hid => @holds_spec (own id).reverse
    fun call hcall => ownCalls_not_legacy hid call (List.mem_reverse.1 hcall)
  refine ⟨hwf.nodup, Clients.forMonitor_eq hwf, hfrom, fun cl hcl => ?_, fun id hid monitor => ?_,
    fun id hid => ?_, fun id monitor rects id' monitor' hne => ?_,
    (newIds_increase Clients.wellFormed_init calls).1,
    (newIds_increase Clients.wellFormed_init calls).2, ?_⟩
  -- the limit holds of what the client's own calls make, and that is what it holds
  · have hmem : cl ∈ c.list.filter (·.id = cl.id) := List.mem_filter.2 ⟨hcl, by simp⟩
    rw [Clients.filter_id hwf.nodup, Option.mem_toList] at hmem
    have hrects : c.held cl.id = some cl.rects := by rw [Clients.held, hmem]; rfl
    rw [hown] at hrects
    exact @run_limit (own cl.id) none nofun cl.rects hrects
  · obtain ⟨hsome, hmap⟩ := hspec id hid
    rw [hfrom, hholds]
    cases hh : holds (own id).reverse with
    | none =>
      rw [hh] at hsome
      rw [← hsome]
      rfl
    | some rects =>
      rw [hh] at hsome
      rw [← hsome, Option.getD_some]
      exact (hmap rects hh).shows monitor
  · have hwrite : ∀ f, (c.write id f).2 = registered (own id).reverse := by
      intro f
      rw [(c.write_spec id f).2.1, hown, hholds]
      exact (hspec id hid).1
    exact ⟨fun monitor rects => hwrite _, hwrite _⟩
  · exact fromClient_setRects hwf id monitor rects id' hne
  · rintro before later id rfl hgiven
    exact unregistered_for_good before later hgiven

def exampleRect (x : ℚ) : CoverRect :=
  { x := some x, y := some 0, w := some 10, h := some 10, rounding := some 0, window := 0,
    fill := .black }

/-- The clear of the old API leaves both plugins' rects. -/
example :
    (Machine.run Clients.step Clients.init
      [.register "gloview", .register "other", .setRects 2 1 [exampleRect 1],
        .legacyAdd 1 (some 5) (some 5) (some 9) (some 9) none, .setRects 3 1 [exampleRect 2],
        .legacyClear]).forMonitor 1 = [exampleRect 1, exampleRect 2] := by
  decide +kernel

end Extra

end NoshareCover
