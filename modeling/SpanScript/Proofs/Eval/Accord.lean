import SpanScript.Proofs.Eval.Steps
import SpanScript.Proofs.Value.Reading

/-!
# Runs in accord

Two runs go alike when, from stores that are related, both give the same answer, or both
halt, and leave stores that are related again.  What is asked of the stores, and which
halts are alike, is an `Accord`.  Invariants are accords of a run with itself, and so is
what a run leaves as it was: an accord has an order of stores too, and says that runs only
go forward in it.

The steps that runs are made of keep every accord.  So what all rules of evaluation have in
common is proved once, and a property of evaluation is an accord with the few things that
are its own.

* `Accord.Agree`: the judgement, with what is known of the answer.
* `Agree.bind` and the lemmas beside it: the steps.
* `agree_whileLoop`, `agree_countLoop`: loops.
* `agree_text`, `agree_truth`, `agree_equal`: the readings of a value, with more levels on the
  other side where going too deep is excepted.
-/

namespace SpanScript.Run

variable {α β γ δ : Type}

/-- What is asked of two runs: how their stores are related, in which order each of them goes
through its stores, and which halts are alike.  A run that halts in an excepted way is in
accord with any other one. -/
structure Accord where
  Related : Store → Store → Prop
  Later : Store → Store → Prop
  Halts : Halt → Halt → Prop
  Excepted : Halt → Prop
  refl (s : Store) : Later s s
  trans {s t u : Store} : Later s t → Later t u → Later s u

/-- Any answer is expected. -/
def Any (_ : Store) (_ : α) : Prop := True

namespace Accord

/-- How two runs end that go alike from `s` on; `Q` says which answers are expected. -/
inductive Ends (A : Accord) (s : Store) (Q : Store → α → Prop) :
    Except Halt α × Store → Except Halt α × Store → Prop
  | answer {a : α} {t t' : Store} : A.Later s t → A.Related t t' → Q t a →
    Ends A s Q (.ok a, t) (.ok a, t')
  | halt {h h' : Halt} {t t' : Store} : A.Later s t → A.Related t t' → A.Halts h h' →
    Ends A s Q (.error h, t) (.error h', t')
  | excepted {h : Halt} {t : Store} {y : Except Halt α × Store} : A.Excepted h →
    Ends A s Q (.error h, t) y

/-- From the stores `s` and `t` the runs go alike. -/
def AgreeAt (A : Accord) (Q : Store → α → Prop) (m m' : Run α) (s t : Store) : Prop :=
  A.Ends s Q (m.run.run s) (m'.run.run t)

/-- From all related stores, the first of which is later than `s`, the runs go alike. -/
def Agree (A : Accord) (s : Store) (Q : Store → α → Prop) (m m' : Run α) : Prop :=
  ∀ ⦃t t'⦄, A.Later s t → A.Related t t' → A.AgreeAt Q m m' t t'

variable {A : Accord} {s t u : Store} {Q Q' : Store → α → Prop} {R : Store → β → Prop}
  {m m' n n' : Run α} {k k' : α → Run β}

/-! ## Steps -/

theorem Ends.imp {x y : Except Halt α × Store} (h : A.Ends s Q x y) (hts : A.Later t s)
    (hq : ∀ u a, A.Later s u → Q u a → Q' u a) : A.Ends t Q' x y := by
  cases h with
  | answer hu hr ha => exact .answer (A.trans hts hu) hr (hq _ _ hu ha)
  | halt hu hr hh => exact .halt (A.trans hts hu) hr hh
  | excepted hx => exact .excepted hx

theorem AgreeAt.bind (h : A.AgreeAt Q m m' s t)
    (h' : ∀ ⦃a u v⦄, A.Later s u → A.Related u v → Q u a → A.AgreeAt R (k a) (k' a) u v) :
    A.AgreeAt R (m >>= k) (m' >>= k') s t := by
  unfold AgreeAt at h ⊢
  rw [run_bind, run_bind]
  generalize m.run.run s = x at h ⊢
  generalize m'.run.run t = y at h ⊢
  cases h with
  | answer hu hr ha => exact (h' hu hr ha).imp hu fun _ _ _ hb => hb
  | halt hu hr hh => exact .halt hu hr hh
  | excepted hx => exact .excepted hx

theorem Agree.bind (h : A.Agree s Q m m')
    (h' : ∀ t a, A.Later s t → Q t a → A.Agree t R (k a) (k' a)) :
    A.Agree s R (m >>= k) (m' >>= k') := fun _ _ hs hr =>
  (h hs hr).bind fun _ _ _ hu huv ha => h' _ _ (A.trans hs hu) ha (A.refl _) huv

theorem Agree.mono (h : A.Agree s Q m m') (hs : A.Later s t) : A.Agree t Q m m' :=
  fun _ _ hu => h (A.trans hs hu)

theorem Agree.imp (h : A.Agree s Q m m') (hq : ∀ t a, A.Later s t → Q t a → Q' t a) :
    A.Agree s Q' m m' :=
  fun _ _ hs hr => (h hs hr).imp (A.refl _) fun _ _ hu ha => hq _ _ (A.trans hs hu) ha

theorem Agree.any (h : A.Agree s Q m m') : A.Agree s Any m m' := h.imp fun _ _ _ _ => trivial

theorem agree_pure {a : α} (h : ∀ t, A.Later s t → Q t a) : A.Agree s Q (pure a) (pure a) :=
  fun _ _ hs hr => .answer (A.refl _) hr (h _ hs)

theorem agree_any (a : α) : A.Agree s Any (pure a) (pure a) := agree_pure fun _ _ => trivial

theorem agree_throw {h h' : Halt} (hh : A.Halts h h') :
    A.Agree s Q (throw h : Run α) (throw h') := fun _ _ _ hr => .halt (A.refl _) hr hh

theorem agree_excepted {h : Halt} (hx : A.Excepted h) (m' : Run α) :
    A.Agree s Q (throw h) m' := fun _ _ _ _ => .excepted hx

/-- What is done with an answer does not change it. -/
theorem Agree.map (h : A.Agree s Q m m') {p : α → β}
    (hq : ∀ t u a, A.Later s t → Q t a → A.Later t u → R u (p a)) :
    A.Agree s R (m >>= fun a => pure (p a)) (m' >>= fun a => pure (p a)) :=
  h.bind fun t a hs ha => agree_pure fun u hu => hq t u a hs ha hu

theorem agree_get {k k' : Store → Run α}
    (h : ∀ ⦃t t'⦄, A.Later s t → A.Related t t' → A.AgreeAt Q (k t) (k' t') t t') :
    A.Agree s Q (get >>= k) (get >>= k') := fun _ _ hs hr => h hs hr

theorem agree_read {k k' : Store → Run α}
    (h : ∀ ⦃t t'⦄, A.Later s t → A.Related t t' → A.Agree t Q (k t) (k' t')) :
    A.Agree s Q (get >>= k) (get >>= k') :=
  agree_get fun _ _ hs hr => h hs hr (A.refl _) hr

theorem agreeAt_modify {p p' : Store → Store} (h : A.Later s (p s)) (h' : A.Related (p s) (p' t)) :
    A.AgreeAt Any (modify p : Run PUnit) (modify p') s t := .answer h h' trivial

theorem agree_modify {p p' : Store → Store}
    (h : ∀ ⦃t t'⦄, A.Later s t → A.Related t t' → A.Later t (p t) ∧ A.Related (p t) (p' t')) :
    A.Agree s Any (modify p : Run PUnit) (modify p') :=
  fun _ _ hs hr => agreeAt_modify (h hs hr).1 (h hs hr).2

theorem agreeAt_ite {c : Prop} [Decidable c] (h : c → A.AgreeAt Q m m' s t)
    (h' : ¬ c → A.AgreeAt Q n n' s t) :
    A.AgreeAt Q (if c then m else n) (if c then m' else n') s t := by
  split
  · next hc => exact h hc
  · next hc => exact h' hc

theorem agree_ite {c : Prop} [Decidable c] (h : c → A.Agree s Q m m')
    (h' : ¬ c → A.Agree s Q n n') :
    A.Agree s Q (if c then m else n) (if c then m' else n') :=
  fun _ _ hs hr => agreeAt_ite (fun hc => h hc hs hr) fun hc => h' hc hs hr

theorem agree_mapM {k : γ → Run α} {k' : δ → Run α} {p : γ → δ} {xs : List γ}
    (h : ∀ x ∈ xs, A.Agree s Any (k x) (k' (p x))) :
    A.Agree s Any (xs.mapM k) ((xs.map p).mapM k') := by
  induction xs generalizing s with
  | nil => exact agree_any _
  | cons x xs ih =>
    rw [List.map_cons, List.mapM_cons, List.mapM_cons]
    refine (h x (List.mem_cons_self ..)).bind fun t a hs _ => ?_
    exact (ih fun y hy => (h y (List.mem_cons_of_mem _ hy)).mono hs).bind fun _ _ _ _ => agree_any _

theorem agree_each {k k' : γ → Run α} {xs : List γ}
    (h : ∀ x ∈ xs, A.Agree s Any (k x) (k' x)) : A.Agree s Any (xs.mapM k) (xs.mapM k') := by
  have hmap : A.Agree s Any (xs.mapM k) ((xs.map id).mapM k') := agree_mapM h
  rwa [List.map_id] at hmap

/-! ## Loops -/

section

variable {F : Store → Completion → Prop} {turn turn' : Run Completion}
  (hlater : ∀ {t u c}, F t c → A.Later t u → F u c) (hnormal : ∀ t, F t .normal)
  (hend : ∀ {t c c'}, F t c → c.endOfTurn = some c' → F t c')
  (hunfinished : A.Halts .unfinished .unfinished)
include hlater hnormal hend hunfinished

theorem agree_whileLoop {test test' : Run Bool} (h : A.Agree s Any test test')
    (h' : A.Agree s F turn turn') :
    ∀ turns, A.Agree s F (whileLoop test turn turns) (whileLoop test' turn' turns) := by
  intro turns
  induction turns with
  | zero => exact agree_throw hunfinished
  | succ turns ih =>
    refine h.bind fun t b hs _ =>
      agree_ite (fun _ => ?_) fun _ => agree_pure fun _ _ => hnormal _
    refine (h'.mono hs).bind fun u c hu hc => ?_
    cases hc' : c.endOfTurn with
    | none => exact ih.mono (A.trans hs hu)
    | some c' => exact agree_pure fun v hv => hlater (hend hc hc') hv

theorem agree_countLoop {limit : Int} {read read' : Run Int} {write write' : Int → Run Unit}
    (h : A.Agree s F turn turn') (hread : A.Agree s Any read read')
    (hwrite : ∀ n, A.Agree s Any (write n) (write' n)) : ∀ turns counter,
      A.Agree s F (countLoop limit turn read write turns counter)
        (countLoop limit turn' read' write' turns counter) := by
  intro turns
  induction turns with
  | zero => exact fun _ => agree_throw hunfinished
  | succ turns ih =>
    intro counter
    refine agree_ite (fun _ => agree_pure fun _ _ => hnormal _) fun _ => ?_
    refine h.bind fun t c hs hc => ?_
    cases hc' : c.endOfTurn with
    | some c' => exact agree_pure fun v hv => hlater (hend hc hc') hv
    | none =>
      refine (hread.mono hs).bind fun u n hu _ => ?_
      have hsu := A.trans hs hu
      refine agree_ite (fun _ => ?_) fun _ => ?_
      · exact ((hwrite _).mono hsu).bind fun v _ hv _ => (ih _).mono (A.trans hsu hv)
      · exact (agree_any _).bind fun v _ hv _ => (ih _).mono (A.trans hsu hv)

end

end Accord

/-! ## Readings -/

/-- A reading on one level more, which answers as the one on fewer levels did unless that
went too deep. -/
def Deepens (x y : Except Halt α) : Prop := x = .error .tooDeep ∨ y = x

theorem Deepens.bind {x y : Except Halt α} {k k' : α → Except Halt β} (h : Deepens x y)
    (h' : ∀ a, Deepens (k a) (k' a)) : Deepens (x >>= k) (y >>= k') := by
  obtain rfl | rfl := h
  · exact .inl rfl
  · cases y with
    | ok a => exact h' a
    | error e => exact .inr rfl

theorem Deepens.mapM {k k' : γ → Except Halt α} (h : ∀ x, Deepens (k x) (k' x)) (xs : List γ) :
    Deepens (xs.mapM k) (xs.mapM k') := by
  induction xs with
  | nil => exact .inr rfl
  | cons x xs ih =>
    rw [List.mapM_cons, List.mapM_cons]
    exact (h x).bind fun _ => ih.bind fun _ => .inr rfl

theorem deepens_text (s : Store) : ∀ (levels : Nat) (v : Value),
    Deepens (s.text levels v) (s.text (levels + 1) v) := by
  intro levels
  induction levels with
  | zero =>
    intro v
    cases v with
    | tns ref => exact .inl rfl
    | int n => rw [Store.text_int, Store.text_int]; exact .inr rfl
    | _ => exact .inr rfl
  | succ levels ih =>
    intro v
    cases v with
    | tns ref => exact (Deepens.mapM ih _).bind fun _ => .inr rfl
    | int n => rw [Store.text_int, Store.text_int]; exact .inr rfl
    | _ => exact .inr rfl

theorem deepens_anyOf {test test' : Value → Except Halt Bool}
    (h : ∀ v, Deepens (test v) (test' v)) (vs : List Value) :
    Deepens (Store.anyOf test vs) (Store.anyOf test' vs) := by
  induction vs with
  | nil => exact .inr rfl
  | cons v vs ih =>
    refine (h v).bind fun b => ?_
    cases b
    · exact ih
    · exact .inr rfl

theorem deepens_truth (s : Store) : ∀ (levels : Nat) (v : Value),
    Deepens (s.truth levels v) (s.truth (levels + 1) v) := by
  intro levels
  induction levels with
  | zero =>
    intro v
    cases v with
    | tns ref => exact .inl rfl
    | _ => exact .inr rfl
  | succ levels ih =>
    intro v
    cases v with
    | tns ref => exact deepens_anyOf ih _
    | _ => exact .inr rfl

theorem deepens_allEqual {test test' : Value → Value → Except Halt Bool}
    (h : ∀ a b, Deepens (test a b) (test' a b)) : ∀ as bs : List Value,
    Deepens (Store.allEqual test as bs) (Store.allEqual test' as bs) := by
  intro as
  induction as with
  | nil => exact fun _ => .inr rfl
  | cons a as ih =>
    intro bs
    cases bs with
    | nil => exact .inr rfl
    | cons b bs =>
      refine (h a b).bind fun c => ?_
      cases c
      · exact .inr rfl
      · exact ih bs

theorem deepens_equal (s : Store) : ∀ (levels : Nat) (a b : Value),
    Deepens (s.equal levels a b) (s.equal (levels + 1) a b) := by
  intro levels
  induction levels with
  | zero =>
    intro a b
    cases a <;> cases b
    case tns.tns a b => exact .inl rfl
    all_goals exact .inr rfl
  | succ levels ih =>
    intro a b
    cases a <;> cases b
    case tns.tns a b =>
      rw [Store.equal, Store.equal]
      split
      · exact deepens_allEqual ih _ _
      · exact .inr rfl
    all_goals exact .inr rfl

/-- Many levels more. -/
theorem deepens_add {reading : Nat → Except Halt α}
    (h : ∀ n, Deepens (reading n) (reading (n + 1))) (levels : Nat) : ∀ n,
    Deepens (reading levels) (reading (levels + n)) := by
  intro n
  induction n with
  | zero => exact .inr rfl
  | succ n ih =>
    obtain ih | ih := ih
    · exact .inl ih
    · rcases h (levels + n) with h | h
      · exact .inl (ih ▸ h)
      · exact .inr (h.trans ih)

theorem run_ofStore (reading : Store → Except Halt α) (s : Store) :
    (ofStore reading).run.run s = (reading s, s) := by
  rw [ofStore, run_get]
  cases reading s <;> rfl

/-- How many levels a run and the run beside it may take: no fewer, and no more
unless going too deep is excepted. -/
structure Reaches (X : Halt → Prop) (levels levels' : Nat) : Prop where
  le : levels ≤ levels'
  eq : ¬ X .tooDeep → levels' = levels

theorem Reaches.refl (X : Halt → Prop) (levels : Nat) : Reaches X levels levels :=
  ⟨Nat.le_refl _, fun _ => rfl⟩

theorem Reaches.sub {X : Halt → Prop} {levels levels' : Nat} (h : Reaches X levels levels')
    (n : Nat) : Reaches X (levels - n) (levels' - n) :=
  ⟨Nat.sub_le_sub_right h.le n, fun hX => congrArg (· - n) (h.eq hX)⟩

theorem Reaches.div {X : Halt → Prop} {levels levels' : Nat} (h : Reaches X levels levels')
    (n : Nat) : Reaches X (levels / n) (levels' / n) :=
  ⟨Nat.div_le_div_right h.le, fun hX => congrArg (· / n) (h.eq hX)⟩

namespace Accord

variable {A : Accord} {s : Store} (htensors : ∀ {s t}, A.Related s t → t.tensors = s.tensors)
  (hdeep : A.Halts .tooDeep .tooDeep) (hlong : A.Halts .printTooLong .printTooLong)
  {levels levels' : Nat} (hl : Reaches A.Excepted levels levels')
include htensors hdeep hlong hl

/-- A reading that looks at tensors only. -/
theorem agree_ofStore (reading : Nat → Store → Except Halt α)
    (hr : ∀ n {s t : Store}, s.tensors = t.tensors → reading n s = reading n t)
    (hd : ∀ n s, Deepens (reading n s) (reading (n + 1) s)) (hs : ∀ n s, Settles (reading n s)) :
    A.Agree s Any (ofStore (reading levels)) (ofStore (reading levels')) := by
  intro t t' _ hrelated
  rw [AgreeAt, run_ofStore, run_ofStore, hr levels' (htensors hrelated)]
  obtain ⟨n, rfl⟩ := Nat.exists_eq_add_of_le hl.le
  -- the same reading comes to the same on both sides
  have hsame : A.Ends t Any (reading levels t, t) (reading levels t, t') := by
    rcases hs levels t with ⟨a, h⟩ | h | h <;> rw [h]
    · exact .answer (A.refl _) hrelated trivial
    · exact .halt (A.refl _) hrelated hdeep
    · exact .halt (A.refl _) hrelated hlong
  by_cases hX : A.Excepted .tooDeep
  · rcases deepens_add (fun n => hd n t) levels n with h | h <;> rw [h]
    · exact .excepted hX
    · exact hsame
  · obtain rfl : n = 0 := by
      have hn := hl.eq hX
      omega
    exact hsame

theorem agree_text (v : Value) : A.Agree s Any (text levels v) (text levels' v) :=
  agree_ofStore htensors hdeep hlong hl (fun n s => s.text n v)
    (fun n _ _ h => Store.text_congr h n v) (fun n s => deepens_text s n v)
    fun n s => s.settles_text n v

theorem agree_truth (v : Value) : A.Agree s Any (truth levels v) (truth levels' v) :=
  agree_ofStore htensors hdeep hlong hl (fun n s => s.truth n v)
    (fun n _ _ h => Store.truth_congr h n v) (fun n s => deepens_truth s n v)
    fun n s => s.settles_truth n v

theorem agree_equal (a b : Value) : A.Agree s Any (equal levels a b) (equal levels' a b) :=
  agree_ofStore htensors hdeep hlong hl (fun n s => s.equal n a b)
    (fun n _ _ h => Store.equal_congr h n a b) (fun n s => deepens_equal s n a b)
    fun n s => s.settles_equal n a b

end Accord

end SpanScript.Run
