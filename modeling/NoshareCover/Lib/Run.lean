import Mathlib.Data.List.Basic
import Mathlib.Data.List.Forall2

/-!
# Runs of a deterministic machine

A machine reads one event at a time: `step s e` is the next state and what the machine shows for
that event.  A run is a list of events.  `Machine.Admits` says that every step of a run meets a
condition on the state before it and the event, `Machine.AtEach` also looks at the events that come
later, and `Machine.collect` is what an observer notes down.  `Machine.Admits.invariant` is the
induction over such runs, `Machine.run_iff_admits` the one for a condition that is needed as well,
`Machine.countP_outputs_le` the one for something that is used up,
`Machine.simulates_filter` compares a run with the run from which some events were left out, and
`Machine.simulates_interleaving` two runs whose events of some kind correspond.
-/

namespace Machine

variable {σ ε ο : Type*}

/-- The state after reading `es` from `s`. -/
def run (step : σ → ε → σ × ο) : σ → List ε → σ
  | s, [] => s
  | s, e :: es => run step (step s e).1 es

/-- What the machine shows while reading `es` from `s`, one output for each event. -/
def outputs (step : σ → ε → σ × ο) : σ → List ε → List ο
  | _, [] => []
  | s, e :: es => (step s e).2 :: outputs step (step s e).1 es

/-- Every step of the run `es` from `s` meets `P`. -/
def Admits (step : σ → ε → σ × ο) (P : σ → ε → Prop) : σ → List ε → Prop
  | _, [] => True
  | s, e :: es => P s e ∧ Admits step P (step s e).1 es

/-- `P` holds of every step of the run, with the state before it and the events after it. -/
def AtEach (step : σ → ε → σ × ο) (P : σ → ε → List ε → Prop) (s : σ) (es : List ε) : Prop :=
  ∀ a e b, es = a ++ e :: b → P (run step s a) e b

/-- What an observer of the machine notes down over the run `es` from `s`. -/
def collect {β : Type*} (step : σ → ε → σ × ο) (note : σ → ε → List β) : σ → List ε → List β
  | _, [] => []
  | s, e :: es => note s e ++ collect step note (step s e).1 es

/-- The state after the first `n` events of an endless run. -/
def after (step : σ → ε → σ × ο) (s : σ) (events : ℕ → ε) (n : ℕ) : σ :=
  run step s ((List.range n).map events)

/-- What the machine shows for event `n` of an endless run. -/
def outputAt (step : σ → ε → σ × ο) (s : σ) (events : ℕ → ε) (n : ℕ) : ο :=
  (step (after step s events n) (events n)).2

variable {step : σ → ε → σ × ο} {P Q : σ → ε → Prop}

@[simp] theorem run_nil (s : σ) : run step s [] = s := rfl

@[simp] theorem run_cons (s : σ) (e : ε) (es : List ε) :
    run step s (e :: es) = run step (step s e).1 es := rfl

@[simp] theorem outputs_nil (s : σ) : outputs step s [] = [] := rfl

@[simp] theorem outputs_cons (s : σ) (e : ε) (es : List ε) :
    outputs step s (e :: es) = (step s e).2 :: outputs step (step s e).1 es := rfl

@[simp] theorem admits_nil (s : σ) : Admits step P s [] := trivial

@[simp] theorem admits_cons (s : σ) (e : ε) (es : List ε) :
    Admits step P s (e :: es) ↔ P s e ∧ Admits step P (step s e).1 es := Iff.rfl

theorem atEach_nil {P : σ → ε → List ε → Prop} (s : σ) : AtEach step P s [] := by
  intro a e b h
  cases a <;> cases h

theorem atEach_cons {P : σ → ε → List ε → Prop} (s : σ) (e : ε) (es : List ε) :
    AtEach step P s (e :: es) ↔ P s e es ∧ AtEach step P (step s e).1 es := by
  constructor
  · intro h
    refine ⟨h [] e es rfl, fun a e' b heq => h (e :: a) e' b ?_⟩
    rw [heq, List.cons_append]
  · rintro ⟨hfirst, hrest⟩ a e' b heq
    cases a with
    | nil =>
      obtain ⟨rfl, rfl⟩ := List.cons.inj heq
      exact hfirst
    | cons x a =>
      obtain ⟨rfl, htail⟩ := List.cons.inj heq
      exact hrest a e' b htail

theorem run_append (s : σ) (es fs : List ε) :
    run step s (es ++ fs) = run step (run step s es) fs := by
  induction es generalizing s with
  | nil => rfl
  | cons e es ih => exact ih _

theorem after_succ (s : σ) (events : ℕ → ε) (n : ℕ) :
    after step s events (n + 1) = (step (after step s events n) (events n)).1 := by
  rw [after, List.range_succ, List.map_append, run_append]
  rfl

theorem outputs_append (s : σ) (es fs : List ε) :
    outputs step s (es ++ fs) = outputs step s es ++ outputs step (run step s es) fs := by
  induction es generalizing s with
  | nil => rfl
  | cons e es ih =>
    rw [List.cons_append, outputs_cons, ih, outputs_cons, run_cons, List.cons_append]

theorem collect_append {β : Type*} (note : σ → ε → List β) (s : σ) (es fs : List ε) :
    collect step note s (es ++ fs) = collect step note s es ++ collect step note (run step s es) fs := by
  induction es generalizing s with
  | nil => rfl
  | cons e es ih =>
    rw [List.cons_append, collect, collect, ih, List.append_assoc]
    rfl

/-- What the last event of a run adds. -/
theorem collect_concat {β : Type*} (note : σ → ε → List β) (s : σ) (es : List ε) (e : ε) :
    collect step note s (es ++ [e]) = collect step note s es ++ note (run step s es) e := by
  rw [collect_append, collect, collect, List.append_nil]

/-- Each note was taken at one event of the run. -/
theorem collect_split {β : Type*} {note : σ → ε → List β} {s : σ} {es : List ε} {xs ys : List β} {x : β}
    (h : collect step note s es = xs ++ x :: ys) :
    ∃ a e b ys', es = a ++ e :: b ∧ x ∈ note (run step s a) e
      ∧ ys = ys' ++ collect step note (step (run step s a) e).1 b := by
  induction es generalizing s xs with
  | nil => cases xs <;> cases h
  | cons e es ih =>
    rw [collect] at h
    -- the output is from a later step, or from the first
    obtain ⟨zs, -, htail⟩ | ⟨zs, hnote, htail⟩ := List.append_eq_append_iff.mp h
    · obtain ⟨a, e', b, ys', rfl, hx, hys⟩ := ih htail
      exact ⟨e :: a, e', b, ys', rfl, hx, hys⟩
    -- nothing of the first step is left: the later ones start with it
    · cases zs with
      | nil =>
        obtain ⟨a, e', b, ys', rfl, hx, hys⟩ := ih (show _ = [] ++ x :: ys from htail.symm)
        exact ⟨e :: a, e', b, ys', rfl, hx, hys⟩
      -- the first step put it out
      | cons z zs =>
        obtain ⟨rfl, rfl⟩ := List.cons.inj htail
        exact ⟨[], e, es, zs, rfl, hnote ▸ List.mem_append_right xs (List.mem_cons_self ..), rfl⟩

theorem run_concat (s : σ) (es : List ε) (e : ε) :
    run step s (es ++ [e]) = (step (run step s es) e).1 := run_append s es [e]

theorem admits_append (s : σ) (es fs : List ε) :
    Admits step P s (es ++ fs) ↔ Admits step P s es ∧ Admits step P (run step s es) fs := by
  induction es generalizing s with
  | nil => simp
  | cons e es ih =>
    rw [List.cons_append, admits_cons, ih, admits_cons, run_cons, and_assoc]

theorem Admits.mono {s : σ} {es : List ε} (hPQ : ∀ s e, P s e → Q s e)
    (h : Admits step P s es) : Admits step Q s es := by
  induction es generalizing s with
  | nil => trivial
  | cons e es ih => exact ⟨hPQ s e h.1, ih h.2⟩

theorem Admits.and {s : σ} {es : List ε} (hP : Admits step P s es) (hQ : Admits step Q s es) :
    Admits step (fun s e => P s e ∧ Q s e) s es := by
  induction es generalizing s with
  | nil => trivial
  | cons e es ih => exact ⟨⟨hP.1, hQ.1⟩, ih hP.2 hQ.2⟩

theorem admits_of_forall {s : σ} {es : List ε} (h : ∀ s, ∀ e ∈ es, P s e) :
    Admits step P s es := by
  induction es generalizing s with
  | nil => trivial
  | cons e es ih =>
    exact ⟨h s e (List.mem_cons_self ..), ih fun s' e' he => h s' e' (List.mem_cons_of_mem _ he)⟩

/-- **Induction over a run**: what holds at the start and is kept by every step that meets `P`
holds at the end of every run whose steps all meet `P`. -/
theorem Admits.invariant {I : σ → Prop} (hstep : ∀ s e, I s → P s e → I (step s e).1)
    {s : σ} {es : List ε} (h0 : I s) (h : Admits step P s es) : I (run step s es) := by
  induction es generalizing s with
  | nil => exact h0
  | cons e es ih => exact ih (hstep s e h0 h.1) h.2

/-- The induction without a condition on the steps. -/
theorem invariant {I : σ → Prop} (hstep : ∀ s e, I s → I (step s e).1) {s : σ} (h0 : I s)
    (es : List ε) : I (run step s es) := by
  induction es generalizing s with
  | nil => exact h0
  | cons e es ih => exact ih (hstep s e h0)

/-- **What a run shows**: if the invariant makes every step that meets `P` show something in `Q`, so
does every run whose steps all meet `P`. -/
theorem Admits.forall_outputs {I : σ → Prop} {Q : ο → Prop}
    (hstep : ∀ s e, I s → P s e → I (step s e).1) (hout : ∀ s e, I s → P s e → Q (step s e).2)
    {s : σ} {es : List ε} (h0 : I s) (h : Admits step P s es) : ∀ o ∈ outputs step s es, Q o := by
  induction es generalizing s with
  | nil => exact fun o ho => absurd ho List.not_mem_nil
  | cons e es ih =>
    intro o ho
    rcases List.mem_cons.1 ho with rfl | ho
    · exact hout s e h0 h.1
    · exact ih (hstep s e h0 h.1) h.2 o ho

/-- **A budget**: if a step that shows something of the kind `p` takes from the budget and no step
adds to it, then a run shows no more of the kind than the budget had at the start. -/
theorem countP_outputs_le (I : σ → Prop) (budget : σ → ℕ) {p : ο → Bool}
    (hinv : ∀ s e, I s → I (step s e).1)
    (hstep : ∀ s e, I s → (p (step s e).2).toNat + budget (step s e).1 ≤ budget s) {s : σ}
    (h0 : I s) (es : List ε) : (outputs step s es).countP p ≤ budget s := by
  induction es generalizing s with
  | nil => exact Nat.zero_le _
  | cons e es ih =>
    have hrest := ih (hinv s e h0)
    have hfirst := hstep s e h0
    rw [outputs_cons, List.countP_cons]
    -- each one counted costs at least one of the budget
    cases hp : p (step s e).2 with
    | true =>
      rw [hp, Bool.toNat_true] at hfirst
      rw [if_pos rfl]
      omega
    | false =>
      rw [hp, Bool.toNat_false] at hfirst
      rw [if_neg Bool.false_ne_true]
      omega

/-- **A condition that is needed too**: if each step keeps `S` exactly when it meets `P`, then a run
ends in `S` exactly when it started there and all its steps meet `P`. -/
theorem run_iff_admits {I S : σ → Prop} (hinv : ∀ s e, I s → I (step s e).1)
    (hstep : ∀ s e, I s → (S (step s e).1 ↔ S s ∧ P s e)) {s : σ} (h0 : I s) (es : List ε) :
    S (run step s es) ↔ S s ∧ Admits step P s es := by
  induction es generalizing s with
  | nil => simp
  | cons e es ih =>
    rw [run_cons, ih (hinv s e h0), hstep s e h0, admits_cons, and_assoc]

/-- **Leaving events out**: let `R` relate the states of the whole run to those of the run that
reads only the events that satisfy `keep`.  If a kept event keeps `R` on both sides and an event
left out keeps it on the left alone, then `R` holds after every run, and after it a kept event
finds related states. -/
theorem simulates_filter {R : σ → σ → Prop} (keep : ε → Bool)
    (hkeep : ∀ s t e, keep e = true → R s t → P s e → R (step s e).1 (step t e).1)
    (hdrop : ∀ s t e, keep e = false → R s t → P s e → R (step s e).1 t)
    {s t : σ} {es : List ε} (hR : R s t) (h : Admits step P s es) :
    R (run step s es) (run step t (es.filter keep)) := by
  induction es generalizing s t with
  | nil => exact hR
  | cons e es ih =>
    cases hk : keep e with
    | true =>
      rw [List.filter_cons_of_pos hk, run_cons, run_cons]
      exact ih (hkeep s t e hk hR h.1) h.2
    | false =>
      rw [List.filter_cons_of_neg (by simp [hk]), run_cons]
      exact ih (hdrop s t e hk hR h.1) h.2

/-- **Two interleavings**: let two runs read the same events that satisfy `keep` up to `same`, in
the same order, and each of them others in between.  If a kept event and its counterpart keep `R` on
both sides and another one keeps it on the side that reads it, then `R` holds after both runs. -/
theorem simulates_interleaving {R : σ → σ → Prop} (keep : ε → Bool) {same : ε → ε → Prop}
    (hkeep : ∀ s t e f, keep e = true → same e f → R s t → P s e → P t f →
      R (step s e).1 (step t f).1)
    (hleft : ∀ s t e, keep e = false → R s t → P s e → R (step s e).1 t)
    (hright : ∀ s t e, keep e = false → R s t → P t e → R s (step t e).1)
    {s t : σ} {es fs : List ε} (hsame : List.Forall₂ same (es.filter keep) (fs.filter keep))
    (hR : R s t) (hs : Admits step P s es) (ht : Admits step P t fs) :
    R (run step s es) (run step t fs) := by
  induction fs generalizing s t es with
  | nil =>
    -- the left run reads no kept event
    rw [List.filter_nil, List.forall₂_nil_right_iff, List.filter_eq_nil_iff] at hsame
    induction es generalizing s with
    | nil => exact hR
    | cons e es ih =>
      have hk : keep e = false := by simpa using hsame e (List.mem_cons_self ..)
      exact ih (fun e' he' => hsame e' (List.mem_cons_of_mem _ he')) (hleft s t e hk hR hs.1) hs.2
  | cons f fs ih =>
    cases hf : keep f with
    | false =>
      rw [List.filter_cons_of_neg (by simp [hf])] at hsame
      exact ih hsame (hright s t f hf hR ht.1) hs ht.2
    | true =>
      rw [List.filter_cons_of_pos hf] at hsame
      -- the left run gets to the counterpart of `f` after events that are not kept
      induction es generalizing s with
      | nil => cases hsame
      | cons e es ihes =>
        cases he : keep e with
        | false =>
          rw [List.filter_cons_of_neg (by simp [he])] at hsame
          exact ihes hsame (hleft s t e he hR hs.1) hs.2
        | true =>
          rw [List.filter_cons_of_pos he, List.forall₂_cons] at hsame
          obtain ⟨hef, hrest⟩ := hsame
          have hrun := ih hrest (hkeep s t e f he hef hR hs.1 ht.1) hs.2 ht.2
          exact hrun

end Machine
