import NoshareCover.Core.Gone
import NoshareCover.Core.Spec.Clients

/-!
# Callbacks that were taken back

`notifyGone` takes the list out before it calls the first callback, so what a callback takes back
from then on is only taken out of the new, empty list.  `safe_iff` says that every run is safe
unless a callback takes back one that the same notification has still to call.
-/

namespace NoshareCover

namespace Extra

/-! ### Safe histories -/

/-- The callback was set, and not taken back since. -/
def Armed (g : Gone) : List Mark → Prop
  | [] => False
  | .set g' :: past => g' = g ∨ Armed g past
  | .takenBack client :: past => client ≠ g.client ∧ Armed g past
  | .called _ :: past => Armed g past

/-- Whenever a callback was called, it had been set and not taken back since, and had not been
called before. -/
def Safe (past : List Mark) : Prop :=
  ∀ g earlier, .called g :: earlier <:+ past → Armed g earlier ∧ .called g ∉ earlier

/-- No callback was called twice. -/
def Once (past : List Mark) : Prop :=
  ∀ g earlier, .called g :: earlier <:+ past → .called g ∉ earlier

theorem Safe.of_suffix {past past' : List Mark} (h : Safe past) (hsuffix : past' <:+ past) :
    Safe past' :=
  fun g earlier hearlier => h g earlier (hearlier.trans hsuffix)

theorem safe_cons {m : Mark} {past : List Mark} :
    Safe (m :: past) ↔ Safe past ∧ ∀ g, m = .called g → Armed g past ∧ .called g ∉ past := by
  constructor
  · intro h
    refine ⟨h.of_suffix (List.suffix_cons ..), ?_⟩
    rintro g rfl
    exact h g past List.suffix_rfl
  · rintro ⟨hpast, hm⟩ g earlier hearlier
    rcases List.suffix_cons_iff.1 hearlier with heq | hsuffix
    · obtain ⟨rfl, rfl⟩ := List.cons.inj heq
      exact hm g rfl
    · exact hpast g earlier hsuffix

theorem once_cons {m : Mark} {past : List Mark} (h : Once past)
    (hm : ∀ g, m = .called g → .called g ∉ past) : Once (m :: past) := by
  intro g earlier hearlier
  rcases List.suffix_cons_iff.1 hearlier with heq | hsuffix
  · obtain ⟨rfl, rfl⟩ := List.cons.inj heq
    exact hm g rfl
  · exact h g earlier hsuffix

theorem safe_nil : Safe [] := fun _ _ h => absurd (List.suffix_nil.1 h) (List.cons_ne_nil _ _)

/-- The call takes the client's callback back. -/
def Api.Call.takesBack (id : ℕ) : Api.Call → Bool
  | .clients (.unregister i) => i = id
  | .setGoneCallback i none _ => i = id
  | _ => false

/-- No callback of the list takes back one that is called after it. -/
def Spares : List Gone → List (List Api.Call) → Prop
  | [], _ => True
  | _ :: list, made =>
    (∀ c ∈ made.headD [], ∀ g ∈ list, c.takesBack g.client = false) ∧ Spares list made.tail

def Session.Spares (w : Session) : Event → Prop
  | .call _ => True
  | .notifyGone made => Extra.Spares w.api.gone made

/-! ### What a call does -/

/-- A client stays registered over every call that doesn't unregister it. -/
theorem Clients.held_step_isSome {c : Clients} (h : c.WellFormed) {call : Clients.Call} {id : ℕ}
    (hne : call ≠ .unregister id) (hheld : (c.held id).isSome = true) :
    ((c.step call).1.held id).isSome = true := by
  obtain ⟨rects, hrects⟩ := Option.isSome_iff_exists.1 hheld
  rw [(Clients.step_spec h call).2.2, hrects]
  split_ifs with hby
  · cases call with
    | unregister i =>
      have hid : i = id := of_decide_eq_true hby
      exact absurd (congrArg Clients.Call.unregister hid) hne
    | legacyAdd monitor x y w h rounding =>
      simp only [ownStep]
      split <;> rfl
    | _ => rfl
  · rfl

/-- The state between two callbacks: `list` is still to be called. -/
structure Tracked (w : Session) (list : List Gone) : Prop where
  wellFormed : w.api.clients.WellFormed
  registered : ∀ g ∈ w.api.gone, (w.api.clients.held g.client).isSome = true
  numbered : ∀ g, .set g ∈ w.past → g.serial < w.api.sets
  calledSet : ∀ g, .called g ∈ w.past → .set g ∈ w.past
  wasSet : ∀ g ∈ w.api.gone ++ list, .set g ∈ w.past
  fresh : ∀ g ∈ w.api.gone ++ list, .called g ∉ w.past
  nodup : (w.api.gone ++ list).Nodup
  armed : ∀ g ∈ w.api.gone, Armed g w.past
  once : Once w.past

/-- What a call does to the callbacks: it takes those of a client back, sets one, or leaves them
alone. -/
inductive Session.Calls (w : Session) (c : Api.Call) : Prop
  | takesBack (id : ℕ) (htakes : ∀ i, c.takesBack i = decide (id = i))
      (hpast : (w.call c).past = .takenBack id :: w.past)
      (hgone : (w.call c).api.gone = w.api.gone.filter (·.client ≠ id))
      (hsets : (w.call c).api.sets = w.api.sets)
  | sets (g : Gone) (htakes : ∀ i, c.takesBack i = false) (hserial : g.serial = w.api.sets)
      (hclient : (w.api.clients.held g.client).isSome = true)
      (hpast : (w.call c).past = .set g :: w.past)
      (hgone : (w.call c).api.gone = w.api.gone.filter (·.client ≠ g.client) ++ [g])
      (hsets : (w.call c).api.sets = w.api.sets + 1)
  | leaves (htakes : ∀ i, c.takesBack i = false) (hpast : (w.call c).past = w.past)
      (hgone : (w.call c).api.gone = w.api.gone) (hsets : (w.call c).api.sets = w.api.sets)

theorem Session.calls {w : Session} {list : List Gone} (h : Tracked w list) (c : Api.Call) :
    w.Calls c := by
  cases c with
  | clients call =>
    cases call with
    | unregister id => exact .takesBack id (fun i => rfl) rfl rfl rfl
    | _ => exact .leaves (fun i => rfl) rfl rfl rfl
  | setGoneCallback client cb user =>
    -- the client is there exactly when it holds rectangles
    have hheld : (Clients.clientMut client id w.api.clients.list).isNone = true
        ↔ w.api.clients.held client = none := by
      rw [Option.isNone_iff_eq_none, Clients.clientMut_eq_none, Clients.held,
        Option.map_eq_none_iff]
    -- unset, or set
    cases cb with
    | none =>
      refine .takesBack client (fun i => rfl) rfl ?_ ?_
      · show ((w.api.setGoneCallback client none user).1).gone = _
        unfold Api.setGoneCallback
        split_ifs with hnone
        · -- a client that doesn't exist has no callback
          refine (List.filter_eq_self.2 fun g hg => ?_).symm
          rw [decide_eq_true_eq]
          rintro rfl
          have hsome := h.registered g hg
          rw [hheld.1 hnone] at hsome
          exact absurd hsome Bool.false_ne_true
        · rfl
      · show ((w.api.setGoneCallback client none user).1).sets = _
        unfold Api.setGoneCallback
        split_ifs <;> rfl
    | some cb =>
      -- an unknown client is refused
      by_cases hnone : (Clients.clientMut client id w.api.clients.list).isNone = true
      · have hset : w.api.setGoneCallback client (some cb) user = (w.api, false) := by
          unfold Api.setGoneCallback
          rw [if_pos hnone]
        refine .leaves (fun i => rfl) ?_ ?_ ?_
        all_goals simp [Session.call, Api.call, Api.Call.mark, hset]
      -- the new callback takes the place of the old one
      · have hset : w.api.setGoneCallback client (some cb) user
            = ({ w.api with
                gone := w.api.gone.filter (·.client ≠ client)
                  ++ [{ client, cb, user, serial := w.api.sets }]
                sets := w.api.sets + 1 }, true) := by
          unfold Api.setGoneCallback
          rw [if_neg hnone]
        have hclient : (w.api.clients.held client).isSome = true := by
          rw [Option.isSome_iff_ne_none]
          exact fun h => hnone (hheld.2 h)
        refine .sets { client, cb, user, serial := w.api.sets } (fun i => rfl) rfl hclient ?_ ?_ ?_
        all_goals simp [Session.call, Api.call, Api.Call.mark, hset]

theorem Session.clients_call (w : Session) (c : Api.Call) :
    (w.call c).api.clients = match c with
      | .clients call => (w.api.clients.step call).1
      | .setGoneCallback .. => w.api.clients := by
  cases c with
  | clients call => cases call <;> rfl
  | setGoneCallback client cb user =>
    show ((w.api.setGoneCallback client cb user).1).clients = _
    unfold Api.setGoneCallback
    split_ifs
    · rfl
    · cases cb <;> rfl

/-- Callbacks belong to registered clients. -/
theorem Tracked.registered_call {w : Session} {list : List Gone} (h : Tracked w list)
    (c : Api.Call) :
    ∀ g ∈ (w.call c).api.gone, ((w.call c).api.clients.held g.client).isSome = true := by
  rw [w.clients_call]
  cases c with
  | clients call =>
    -- an unregistered client takes its callback with it
    by_cases hun : ∃ id, call = .unregister id
    · obtain ⟨id, rfl⟩ := hun
      intro g hg
      obtain ⟨hmem, hne⟩ := List.mem_filter.1 hg
      have hheld := Clients.held_unregister w.api.clients id g.client
      rw [if_neg (of_decide_eq_true hne)] at hheld
      exact (congrArg Option.isSome hheld).trans (h.registered g hmem)
    · have hne : ∀ id, call ≠ .unregister id := fun id heq => hun ⟨id, heq⟩
      have hgone : (w.call (.clients call)).api.gone = w.api.gone := by
        cases call with
        | unregister id => exact absurd rfl (hne id)
        | _ => rfl
      intro g hg
      rw [hgone] at hg
      exact Clients.held_step_isSome h.wellFormed (hne _) (h.registered g hg)
  -- taken back, set, or left as it is
  | setGoneCallback client cb user =>
    intro g hg
    rcases Session.calls h (.setGoneCallback client cb user) with
      ⟨id, -, -, hgone, -⟩ | ⟨g', -, -, hclient, -, hgone, -⟩ | ⟨-, -, hgone, -⟩
    all_goals rw [hgone] at hg
    · exact h.registered g (List.mem_filter.1 hg).1
    · rcases List.mem_append.1 hg with hg | hg
      · exact h.registered g (List.mem_filter.1 hg).1
      · rw [List.mem_singleton.1 hg]
        exact hclient
    · exact h.registered g hg

/-! ### One call, one callback -/

section Step

variable {w : Session} {list : List Gone}

theorem Tracked.takenBack (h : Tracked w list) {w' : Session} {id : ℕ}
    (hwellFormed : w'.api.clients.WellFormed)
    (hregistered : ∀ g ∈ w'.api.gone, (w'.api.clients.held g.client).isSome = true)
    (hpast : w'.past = .takenBack id :: w.past)
    (hgone : w'.api.gone = w.api.gone.filter (·.client ≠ id)) (hsets : w'.api.sets = w.api.sets) :
    Tracked w' list := by
  -- fewer callbacks are armed, so every account of them still holds
  have hsub : (w.api.gone.filter (·.client ≠ id) ++ list).Sublist (w.api.gone ++ list) :=
    List.filter_sublist.append_right list
  refine ⟨hwellFormed, hregistered, ?_, ?_, ?_, ?_, ?_, ?_, ?_⟩
  all_goals simp only [hpast, hgone, hsets]
  · simpa using h.numbered
  · simpa using h.calledSet
  · exact fun g hg => List.mem_cons_of_mem _ (h.wasSet g (hsub.mem hg))
  · intro g hg hmem
    exact h.fresh g (hsub.mem hg) (by simpa using hmem)
  · exact h.nodup.sublist hsub
  · intro g hg
    obtain ⟨hmem, hne⟩ := List.mem_filter.1 hg
    exact ⟨fun heq => of_decide_eq_true hne heq.symm, h.armed g hmem⟩
  · exact once_cons h.once fun g heq => nomatch heq

/-- A new callback has a number of its own. -/
theorem Tracked.set (h : Tracked w list) {w' : Session} {g : Gone}
    (hwellFormed : w'.api.clients.WellFormed)
    (hregistered : ∀ g ∈ w'.api.gone, (w'.api.clients.held g.client).isSome = true)
    (hserial : g.serial = w.api.sets) (hpast : w'.past = .set g :: w.past)
    (hgone : w'.api.gone = w.api.gone.filter (·.client ≠ g.client) ++ [g])
    (hsets : w'.api.sets = w.api.sets + 1) : Tracked w' list := by
  -- every older callback has a lower number
  have hnew : ∀ g' ∈ w.api.gone ++ list, g' ≠ g := by
    rintro g' hg' rfl
    have hlt := h.numbered g' (h.wasSet g' hg')
    omega
  have hmem : ∀ g' ∈ w.api.gone.filter (·.client ≠ g.client) ++ [g] ++ list,
      g' = g ∨ g' ∈ w.api.gone ++ list := by
    intro g' hg'
    simp only [List.mem_append, List.mem_filter, List.mem_singleton] at hg' ⊢
    tauto
  refine ⟨hwellFormed, hregistered, ?_, ?_, ?_, ?_, ?_, ?_, ?_⟩
  all_goals simp only [hpast, hgone, hsets]
  · intro g' hg'
    rcases List.mem_cons.1 hg' with heq | hg'
    · obtain rfl := Mark.set.inj heq
      omega
    · exact Nat.lt_succ_of_lt (h.numbered g' hg')
  · intro g' hg'
    exact List.mem_cons_of_mem _ (h.calledSet g' (by simpa using hg'))
  · intro g' hg'
    rcases hmem g' hg' with rfl | hg'
    · exact List.mem_cons_self ..
    · exact List.mem_cons_of_mem _ (h.wasSet g' hg')
  · intro g' hg' hcalled
    have hcalled' : .called g' ∈ w.past := by simpa using hcalled
    rcases hmem g' hg' with rfl | hg'
    · have hlt := h.numbered g' (h.calledSet g' hcalled')
      omega
    · exact h.fresh g' hg' hcalled'
  · rw [List.append_assoc, List.singleton_append, List.nodup_middle, List.nodup_cons]
    have hsub : (w.api.gone.filter (·.client ≠ g.client) ++ list).Sublist (w.api.gone ++ list) :=
      List.filter_sublist.append_right list
    exact ⟨fun hg => hnew g (hsub.mem hg) rfl, h.nodup.sublist hsub⟩
  · intro g' hg'
    rcases List.mem_append.1 hg' with hg' | hg'
    · exact .inr (h.armed g' (List.mem_filter.1 hg').1)
    · exact .inl (List.mem_singleton.1 hg').symm
  · exact once_cons h.once fun g heq => nomatch heq

theorem Tracked.call (h : Tracked w list) (c : Api.Call) : Tracked (w.call c) list := by
  have hwellFormed : (w.call c).api.clients.WellFormed := by
    rw [w.clients_call]
    -- no call breaks the clients
    cases c with
    | clients call => exact (Clients.step_spec h.wellFormed call).1
    | setGoneCallback client cb user => exact h.wellFormed
  have hregistered := h.registered_call c
  -- what the call did with the callbacks
  rcases Session.calls h c with ⟨id, -, hpast, hgone, hsets⟩ |
    ⟨g, -, hserial, -, hpast, hgone, hsets⟩ | ⟨-, hpast, hgone, hsets⟩
  · exact h.takenBack hwellFormed hregistered hpast hgone hsets
  · exact h.set hwellFormed hregistered hserial hpast hgone hsets
  · refine ⟨hwellFormed, hregistered, ?_, ?_, ?_, ?_, ?_, ?_, ?_⟩
    all_goals simp only [hpast, hgone, hsets]
    · exact h.numbered
    · exact h.calledSet
    · exact h.wasSet
    · exact h.fresh
    · exact h.nodup
    · exact h.armed
    · exact h.once

theorem Tracked.fire {g : Gone} (h : Tracked w (g :: list)) : Tracked (w.fire g) list := by
  have hsub : (w.api.gone ++ list).Sublist (w.api.gone ++ g :: list) :=
    (List.sublist_cons_self g list).append_left _
  -- the callback leaves the list and its call enters the history
  refine ⟨h.wellFormed, h.registered, ?_, ?_, ?_, ?_, h.nodup.sublist hsub, h.armed, ?_⟩
  · intro g' hg'
    exact h.numbered g' (by simpa [Session.fire] using hg')
  -- it was set, and so were the ones called before
  · intro g' hg'
    rcases List.mem_cons.1 hg' with heq | hg'
    · obtain rfl := Mark.called.inj heq
      exact List.mem_cons_of_mem _ (h.wasSet g' (by simp))
    · exact List.mem_cons_of_mem _ (h.calledSet g' hg')
  · exact fun g' hg' => List.mem_cons_of_mem _ (h.wasSet g' (hsub.mem hg'))
  · intro g' hg' hcalled
    rcases List.mem_cons.1 hcalled with heq | hcalled
    · -- it is not twice in the list
      obtain rfl := Mark.called.inj heq
      have hnodup := (List.nodup_middle.1 h.nodup)
      exact (List.nodup_cons.1 hnodup).1 hg'
    · exact h.fresh g' (hsub.mem hg') hcalled
  -- it is called for the first time
  · refine once_cons h.once fun g' heq => ?_
    obtain rfl := Mark.called.inj heq
    exact h.fresh g (by simp)

/-- A call leaves a callback that was set armed, unless it takes it back. -/
theorem armed_call_iff (h : Tracked w list) {g : Gone} (hset : .set g ∈ w.past) (c : Api.Call) :
    Armed g (w.call c).past ↔ Armed g w.past ∧ c.takesBack g.client = false := by
  rcases Session.calls h c with ⟨id, htakes, hpast, -, -⟩ |
    ⟨g', htakes, hserial, -, hpast, -, -⟩ | ⟨htakes, hpast, -, -⟩
  · rw [hpast, htakes, decide_eq_false_iff_not]
    exact and_comm
  · have hne : g' ≠ g := by
      rintro rfl
      have hlt := h.numbered g' hset
      omega
    rw [hpast, htakes]
    show g' = g ∨ Armed g w.past ↔ _
    simp [hne]
  · rw [hpast, htakes]
    simp

theorem safe_call_iff (h : Tracked w list) (c : Api.Call) :
    Safe (w.call c).past ↔ Safe w.past := by
  rcases Session.calls h c with ⟨id, -, hpast, -, -⟩ | ⟨g, -, -, -, hpast, -, -⟩ | ⟨-, hpast, -, -⟩
  · rw [hpast, safe_cons, and_iff_left fun g heq => nomatch heq]
  · rw [hpast, safe_cons, and_iff_left fun g heq => nomatch heq]
  · rw [hpast]

/-- All the calls of one callback. -/
theorem Tracked.calls (h : Tracked w list) (made : List Api.Call) :
    Tracked (made.foldl Session.call w) list
      ∧ (Safe (made.foldl Session.call w).past ↔ Safe w.past)
      ∧ ∀ g, .set g ∈ w.past → (Armed g (made.foldl Session.call w).past
        ↔ Armed g w.past ∧ ∀ c ∈ made, c.takesBack g.client = false) := by
  -- the callback's calls run one by one, with the rest of the list still to be called
  induction made generalizing w with
  | nil => exact ⟨h, Iff.rfl, fun g _ => by simp⟩
  | cons c made ih =>
    obtain ⟨htracked, hsafe, harmed⟩ := ih (h.call c)
    rw [List.foldl_cons]
    refine ⟨htracked, hsafe.trans (safe_call_iff h c), fun g hset => ?_⟩
    have hset' : .set g ∈ (w.call c).past := List.mem_append_right _ hset
    rw [harmed g hset', armed_call_iff h hset, List.forall_mem_cons, and_assoc]

end Step

/-! ### A whole notification -/

/-- **The loop is safe** exactly when all of its list is armed and no callback takes back one that
is called after it. -/
theorem safe_walk_iff {list : List Gone} :
    ∀ {w : Session} (made : List (List Api.Call)), Tracked w list →
      Tracked (Session.walk list made w) []
        ∧ (Safe (Session.walk list made w).past
          ↔ Safe w.past ∧ (∀ g ∈ list, Armed g w.past) ∧ Spares list made) := by
  induction list with
  | nil =>
    intro w made h
    refine ⟨h, ?_⟩
    show Safe w.past ↔ _
    simp [Spares]
  | cons g list ih =>
    intro w made h
    obtain ⟨htracked, hsafe, harmed⟩ := h.fire.calls (made.headD [])
    obtain ⟨hend, hiff⟩ := ih made.tail htracked
    refine ⟨hend, hiff.trans ?_⟩
    have hfire : Safe (w.fire g).past ↔ Safe w.past ∧ Armed g w.past := by
      show Safe (.called g :: w.past) ↔ _
      rw [safe_cons]
      refine and_congr_right fun _ => ⟨fun hg => (hg g rfl).1, fun hg g' heq => ?_⟩
      obtain rfl := Mark.called.inj heq
      exact ⟨hg, h.fresh g (by simp)⟩
    -- the callback's calls leave those after it armed exactly when they spare them
    have hlater : (∀ g' ∈ list, Armed g' ((made.headD []).foldl Session.call (w.fire g)).past)
        ↔ (∀ g' ∈ list, Armed g' w.past)
          ∧ ∀ c ∈ made.headD [], ∀ g' ∈ list, c.takesBack g'.client = false := by
      have hset : ∀ g' ∈ list, .set g' ∈ (w.fire g).past := fun g' hg' =>
        List.mem_cons_of_mem _ (h.wasSet g' (List.mem_append_right _ (List.mem_cons_of_mem _ hg')))
      constructor
      · intro hall
        refine ⟨fun g' hg' => ((harmed g' (hset g' hg')).1 (hall g' hg')).1, fun c hc g' hg' => ?_⟩
        exact ((harmed g' (hset g' hg')).1 (hall g' hg')).2 c hc
      · rintro ⟨hall, hspares⟩ g' hg'
        exact (harmed g' (hset g' hg')).2 ⟨hall g' hg', fun c hc => hspares c hc g' hg'⟩
    rw [hsafe, hfire, hlater, List.forall_mem_cons, Spares]
    tauto

/-! ### Whole runs -/

theorem tracked_init : Tracked Session.init [] := by
  refine ⟨Clients.wellFormed_init, ?_, ?_, ?_, ?_, ?_, List.nodup_nil, ?_,
    fun g earlier h => (safe_nil g earlier h).2⟩
  all_goals
    intro g hg
    exact absurd hg List.not_mem_nil

/-- One event: a call is safe, and a notification if its callbacks spare those after them. -/
theorem Tracked.step {w : Session} (h : Tracked w []) (e : Event) :
    Tracked (w.step e).1 [] ∧ (Safe (w.step e).1.past ↔ Safe w.past ∧ w.Spares e) := by
  cases e with
  | call c => exact ⟨h.call c, (safe_call_iff h c).trans (and_iff_left trivial).symm⟩
  | notifyGone made =>
    -- the whole list is taken out
    have htaken : Tracked { w with api := { w.api with gone := [] } } w.api.gone := by
      have hgone := h.nodup
      rw [List.append_nil] at hgone
      exact ⟨h.wellFormed, fun g hg => absurd hg List.not_mem_nil, h.numbered, h.calledSet,
        fun g hg => h.wasSet g (List.mem_append_left _ hg),
        fun g hg => h.fresh g (List.mem_append_left _ hg), hgone,
        fun g hg => absurd hg List.not_mem_nil, h.once⟩
    obtain ⟨hend, hiff⟩ := safe_walk_iff made htaken
    refine ⟨hend, hiff.trans (and_congr_right fun _ => ?_)⟩
    exact and_iff_right h.armed

/-- **A callback fires at most once** in every run. -/
theorem called_once (events : List Event) :
    Once (Machine.run Session.step Session.init events).past :=
  (Machine.invariant (I := fun w => Tracked w []) (fun _ e h => (h.step e).1) tracked_init
    events).once

/-- **No gone callback fires after it was taken back, or twice**, in exactly those runs in which no
callback takes back one that the same notification has still to call. -/
theorem gone_callbacks_safe_iff (events : List Event) :
    Safe (Machine.run Session.step Session.init events).past
      ↔ Machine.Admits Session.step Session.Spares Session.init events := by
  have hrun := Machine.run_iff_admits (I := fun w => Tracked w []) (S := fun w => Safe w.past)
    (fun w e h => (h.step e).1) (fun w e h => (h.step e).2) tracked_init events
  rw [hrun]
  exact and_iff_right safe_nil

/-- Two clients of one plugin; the callback of the first unregisters both.  The second one's
callback is called all the same. -/
theorem second_client_called_after_unregister :
    ¬ Safe (Machine.run Session.step Session.init
      [.call (.clients (.register "tiles")), .call (.clients (.register "panel")),
        .call (.setGoneCallback 2 (some 100) 7), .call (.setGoneCallback 3 (some 100) 8),
        .notifyGone [[.clients (.unregister 2), .clients (.unregister 3)]]]).past := by
  intro hsafe
  have hcalled := hsafe { client := 3, cb := 100, user := 8, serial := 1 }
    [.takenBack 3, .takenBack 2, .called { client := 2, cb := 100, user := 7, serial := 0 },
      .set { client := 3, cb := 100, user := 8, serial := 1 },
      .set { client := 2, cb := 100, user := 7, serial := 0 }] (by decide)
  simp [Armed] at hcalled

end Extra

end NoshareCover
