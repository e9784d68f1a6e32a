import SpanScript.Proofs.Eval.Bodies
import SpanScript.Proofs.Eval.Cells
import SpanScript.Proofs.Eval.Layers
import SpanScript.Proofs.Eval.Safety
import SpanScript.Proofs.Store.Binding

/-!
# Loops that count

A loop that counts keeps its count in a variable, which the block may change, delete or
hide.  `Turns` lists the turns that a loop takes one after another: each begins at a count,
and ends in such a way that the loop goes on.

Behind a turn the variable is read again.  The next count is one more than what it stands
for, and it is put back unless it is past the limit; if the variable is gone, or is no
integer any more, the loop fails.  So every turn begins with the variable at its count, and
a block that leaves it there is run once for each count from one to the limit.

The limit is evaluated before the variable is bound.  What the evaluation does to the
variable comes first: it may delete it, and what is then seen in its place need not be an
integer.

* `Turns.run_eq`, `Turns.append`: turns one after another.
* `run_countOn_other`, `run_countOn_none`: the loops that fail behind a turn.
* `Turns.counted`: every turn begins with the variable at its count.
* `Turns.all`: the turns of a block that keeps the variable.
* `for_counts`: statements.
-/

namespace SpanScript

open Machine

/-! ## Turns -/

namespace Run

/-- A turn that a loop has taken: its count, and the stores it began in and has left. -/
structure Turn where
  count : Int
  begun : Store
  left : Store

/-- The turns that a loop takes one after another: `Turns limit turn read write k count s ts
k' count' t` if a loop that is at `count` in `s`, to be followed for `k` turns, takes the
turns `ts` and then is at `count'` in `t`, to be followed for `k'` turns. -/
inductive Turns (limit : Int) (turn : Run Completion) (read : Run Int) (write : Int → Run Unit) :
    Nat → Int → Store → List Turn → Nat → Int → Store → Prop
  | nil {k : Nat} {count : Int} {s : Store} :
    Turns limit turn read write k count s [] k count s
  | cons {k k' : Nat} {count next last : Int} {s t u v : Store} {c : Completion}
      {ts : List Turn} : count ≤ limit → turn.run.run s = (.ok c, t) → c.endOfTurn = none →
    (advance limit read write).run.run t = (.ok next, u) →
    Turns limit turn read write k next u ts k' last v →
    Turns limit turn read write (k + 1) count s (⟨count, s, t⟩ :: ts) k' last v

section

variable {limit : Int} {turn : Run Completion} {read : Run Int} {write : Int → Run Unit}
  {k k' k'' : Nat} {count last next : Int} {s t u v : Store} {ts us : List Turn}

/-- Behind its turns a loop has the rest of its run before it. -/
theorem Turns.run_eq (h : Turns limit turn read write k count s ts k' last t) :
    (countLoop limit turn read write k count).run.run s
      = (countLoop limit turn read write k' last).run.run t := by
  induction h with
  | nil => rfl
  | cons hle hturn hc hnext _ ih =>
    rw [countLoop_succ, if_neg (Int.not_lt.mpr hle), run_bind, hturn]
    dsimp only
    rw [Layer.resume_of_none (l := .loop _) hc, Layer.next, run_bind, hnext]
    exact ih

theorem Turns.append (h : Turns limit turn read write k count s ts k' last t)
    (h' : Turns limit turn read write k' last t us k'' next u) :
    Turns limit turn read write k count s (ts ++ us) k'' next u := by
  induction h with
  | nil => exact h'
  | cons hle hturn hc hnext _ ih => exact .cons hle hturn hc hnext (ih h')

/-- One more turn. -/
theorem Turns.snoc {c : Completion} (h : Turns limit turn read write k count s ts (k' + 1) last t)
    (hle : last ≤ limit) (hturn : turn.run.run t = (.ok c, u)) (hc : c.endOfTurn = none)
    (hnext : (advance limit read write).run.run u = (.ok next, v)) :
    Turns limit turn read write k count s (ts ++ [⟨last, t, u⟩]) k' next v :=
  h.append (.cons hle hturn hc hnext .nil)

end

end Run

/-! ## Behind a turn -/

namespace Machine

variable {m : Machine} {chain : Chain} {loc : Location} {i : String} {n l : Int} {body : Block}
  {s t : Store}

/-- The store in which a loop is at a count behind a turn: the variable is put to the count,
unless it is past the limit. -/
def putCount (chain : Chain) (i : String) (n count : Int) (s : Store) : Store :=
  if count ≤ n then s.put (s.target chain i) i (.int count) else s

theorem run_readCounter_int (h : s.get? chain i = some (.int l)) :
    (readCounter chain loc i).run.run s = (.ok l, s) := by
  rw [readCounter, Run.run_get, h]
  rfl

/-- **The next count is one more** than what the variable stands for. -/
theorem run_advance_int (h : s.get? chain i = some (.int l)) :
    (Run.advance n (readCounter chain loc i) (writeCounter chain loc i)).run.run s
      = (.ok (l + 1), putCount chain i n (l + 1) s) := by
  rw [Run.advance, Run.run_bind, run_readCounter_int h, putCount]
  dsimp only
  by_cases hle : l + 1 ≤ n
  · have hassign : s.assignScope chain i (.int (l + 1)) none = .ok (s.target chain i) :=
      Store.assignScope_of_bound h rfl fun _ htype => by cases htype
    rw [if_pos hle, if_pos hle, writeCounter, Run.run_bind, Run.run_assign_ok hassign]
    rfl
  · rw [if_neg hle, if_neg hle]
    rfl

/-- A loop whose variable is no integer any more fails. -/
theorem run_countOn_other {v : Value} (h : s.get? chain i = some v) (hv : v.kind ≠ .int)
    (left : Nat) :
    (m.countOn chain loc i n body left).run.run s
      = (.error (.fault (.notInteger "FOR") loc), s) := by
  rw [countOn, Run.advance, bind_assoc, readCounter, bind_assoc, Run.run_get, h]
  cases v with
  | int k => exact absurd rfl hv
  | _ => rfl

/-- A loop whose variable is gone fails. -/
theorem run_countOn_none (h : s.get? chain i = none) (left : Nat) :
    (m.countOn chain loc i n body left).run.run s = (.error (.fault (.undefined i) loc), s) := by
  rw [countOn, Run.advance, bind_assoc, readCounter, bind_assoc, Run.run_get, h]
  rfl

/-- The variable stands for the next count, unless that is past the limit. -/
theorem get?_putCount (hc : chain ≠ []) (h : s.get? chain i = some (.int l)) (n count : Int) :
    (putCount chain i n count s).get? chain i = some (.int (if count ≤ n then count else l)) := by
  unfold putCount
  split
  · exact Store.get?_put_target hc (Store.target_lt_of_get? h) _
  · exact h

/-- A loop that has come to a next count has found an integer. -/
theorem exists_of_run_advance {next : Int}
    (h : (Run.advance n (readCounter chain loc i) (writeCounter chain loc i)).run.run s
      = (.ok next, t)) :
    ∃ l, s.get? chain i = some (.int l) ∧ next = l + 1 ∧ t = putCount chain i n next s := by
  cases hg : s.get? chain i with
  | none =>
    rw [Run.advance, readCounter, bind_assoc, Run.run_get, hg] at h
    cases h
  | some v =>
    cases v with
    | int l =>
      rw [run_advance_int hg] at h
      cases h
      exact ⟨l, rfl, rfl, rfl⟩
    | _ =>
      rw [Run.advance, readCounter, bind_assoc, Run.run_get, hg] at h
      cases h

/-- The turns of a loop over a block. -/
abbrev Counts (m : Machine) (chain : Chain) (loc : Location) (i : String) (n : Int)
    (body : Block) : Nat → Int → Store → List Run.Turn → Nat → Int → Store → Prop :=
  Run.Turns n (m.turn chain body) (readCounter chain loc i) (writeCounter chain loc i)

end Machine

/-! ## Runs of turns -/

section

variable {m : Machine} {chain : Chain} {loc : Location} {i : String} {n : Int} {body : Block}

/-- **Every turn begins with the variable at its count**, whatever the turns before have made
of it. -/
theorem Run.Turns.counted (hc : chain ≠ []) {k k' : Nat} {count last : Int} {s t : Store}
    {ts : List Turn} (h : m.Counts chain loc i n body k count s ts k' last t)
    (hs : count ≤ n → s.get? chain i = some (.int count)) :
    (∀ p ∈ ts, p.begun.get? chain i = some (.int p.count)) ∧
      (last ≤ n → t.get? chain i = some (.int last)) := by
  induction h with
  | nil => exact ⟨nofun, hs⟩
  | @cons _ _ count next _ s _ u _ _ ts hle _ _ hnext _ ih =>
    obtain ⟨l, hl, -, rfl⟩ := exists_of_run_advance hnext
    obtain ⟨hturns, hlast⟩ := ih fun hn => by rw [get?_putCount hc hl, if_pos hn]
    exact ⟨List.forall_mem_cons.mpr ⟨hs hle, hturns⟩, hlast⟩

/-- **The turns of a block that keeps the variable** are those at the counts from one to the
limit, in order. -/
theorem Run.Turns.all (hc : chain ≠ []) {u : Store} {turns : Nat}
    (hu : u.get? chain i = some (.int 1))
    (hturn : ∀ ts left k v, m.Counts chain loc i n body turns 1 u ts left k v → k ≤ n →
      v.get? chain i = some (.int k) → ∃ c w, (m.turn chain body).run.run v = (.ok c, w) ∧
        c.endOfTurn = none ∧ w.get? chain i = some (.int k)) :
    ∀ j left : Nat, turns = left + j → j ≤ n.toNat → ∃ ts v,
      m.Counts chain loc i n body turns 1 u ts left (j + 1) v ∧
      ts.map Turn.count = (List.range j).map (fun k : Nat => (k : Int) + 1) ∧
      v.get? chain i = some (.int (min (j + 1) (max n 1))) := by
  intro j
  induction j with
  | zero =>
    intro left hleft _
    subst hleft
    refine ⟨[], u, .nil, rfl, ?_⟩
    rw [hu]
    congr 2
    omega
  | succ j ih =>
    intro left hleft hj
    obtain ⟨ts, v, hts, hcounts, hv⟩ := ih (left + 1) (by omega) (by omega)
    have hmin : min ((j : Int) + 1) (max n 1) = j + 1 := by omega
    rw [hmin] at hv
    obtain ⟨c, w, hrun, hend, hw⟩ := hturn ts _ _ v hts (by omega) hv
    refine ⟨_, _, hts.snoc (by omega) hrun hend (run_advance_int hw), ?_, ?_⟩
    · rw [List.map_append, hcounts, List.range_succ, List.map_append]
      rfl
    · -- behind the last turn the variable is not put any more
      rw [get?_putCount hc hw]
      congr 2
      push_cast
      split <;> omega

end

/-! ## Statements -/

section

variable {turns levels : Nat} {chain : Chain} {s t : Store} {loc : Location} {i : String}
  {limit : Expr} {n : Int} {body : Block}

/-- A statement that counts is its limit and then its loop. -/
theorem exec_forLoop
    (he : (((machine turns levels).under Weight.operand).eval chain limit).run.run s
      = (.ok (.int n), t))
    (hi : ∀ v, t.get? chain i = some v → v.kind = .int) :
    ((machine turns (levels + 1)).exec chain (.forLoop loc i limit body)).run.run s
      = (Run.countLoop n ((machine turns levels).turn chain body) (readCounter chain loc i)
          (writeCounter chain loc i) turns 1).run.run (t.put (t.target chain i) i (.int 1)) := by
  have hassign : t.assignScope chain i (.int 1) (some Kind.int.name)
      = .ok (t.target chain i) := by
    cases hg : t.get? chain i with
    | none => exact Store.assignScope_of_unbound hg
    | some old =>
      have hk := hi old hg
      exact Store.assignScope_of_bound hg hk.symm fun type ht => by
        cases ht
        rw [hk]
  rw [exec_machine, execRule, count, Run.run_bind, he]
  show (Run.assign loc chain i (.int 1) (some Kind.int.name) >>= _ : Run Completion).run.run t = _
  rw [Run.run_bind, Run.run_assign_ok hassign]
  rfl

/-- **Loops count from one to their limit**, where the limit leaves the variable unbound or an
integer.

The limit is evaluated once, and first: with the number it comes to in its place the
statement does the same from there on.  If the block, run from a store where the variable
stands for its count, always goes on with the variable as it was, then it is run for the
counts from one to the limit, in order, and nothing else is run; the variable is left at the
limit, or at one.

Whatever the turns taken so far have done, a turn begins with the variable at its count, and
there is none past the limit.  If it goes on and leaves an integer in the variable, the loop
is next at one more than that; if it leaves no integer there, or nothing at all, the
statement fails. -/
theorem for_counts (hs : s.Sound True) (hc : Chain.Held s chain)
    (he : (((machine turns levels).under Weight.operand).eval chain limit).run.run s
      = (.ok (.int n), t))
    (hi : ∀ v, t.get? chain i = some v → v.kind = .int) :
    let m := machine turns levels
    let r := ((machine turns (levels + 1)).exec chain (.forLoop loc i limit body)).run.run s
    let u := t.put (t.target chain i) i (.int 1)
    r = ((machine turns (levels + 1)).exec chain
      (.forLoop loc i (.literal limit.location (.int n)) body)).run.run t ∧
    ((∀ ts left k v, m.Counts chain loc i n body turns 1 u ts left k v → k ≤ n →
        v.get? chain i = some (.int k) → ∃ c w, (m.turn chain body).run.run v = (.ok c, w) ∧
          c.endOfTurn = none ∧ w.get? chain i = some (.int k)) →
      n.toNat < turns → ∃ ts left v,
        m.Counts chain loc i n body turns 1 u ts left (max n 0 + 1) v ∧
        ts.map Run.Turn.count = (List.range n.toNat).map (fun k : Nat => (k : Int) + 1) ∧
        (∀ p ∈ ts, p.begun.get? chain i = some (.int p.count)) ∧
        r = (.ok .normal, v) ∧ v.get? chain i = some (.int (max n 1))) ∧
    ∀ ts left k v, m.Counts chain loc i n body turns 1 u ts (left + 1) k v →
      (n < k → r = (.ok .normal, v)) ∧
      (k ≤ n → v.get? chain i = some (.int k) ∧
        ∀ c w, (m.turn chain body).run.run v = (.ok c, w) → c.endOfTurn = none →
          (∀ l, w.get? chain i = some (.int l) → m.Counts chain loc i n body turns 1 u
            (ts ++ [⟨k, v, w⟩]) left (l + 1) (putCount chain i n (l + 1) w)) ∧
          (∀ x, w.get? chain i = some x → x.kind ≠ .int →
            r = (.error (.fault (.notInteger "FOR") loc), w)) ∧
          (w.get? chain i = none → r = (.error (.fault (.undefined i) loc), w))) := by
  intro m r u
  have hheld : Chain.Held t chain := hc.mono (extends_of_eval hs hc he)
  have hr : r = (Run.countLoop n (m.turn chain body) (readCounter chain loc i)
      (writeCounter chain loc i) turns 1).run.run u := exec_forLoop he hi
  have hu : u.get? chain i = some (.int 1) :=
    Store.get?_put_target hc.1 (Store.target_lt hheld) _
  refine ⟨?_, fun hturn hn => ?_, fun ts left k v hts => ⟨fun hk => ?_, fun hk => ⟨?_, ?_⟩⟩⟩
  · have hliteral : (((machine turns levels).under Weight.operand).eval chain
        (.literal limit.location (.int n))).run.run t = (.ok (.int n), t) := by
      rw [under_machine] at he ⊢
      exact eval_literal_of_ok he _ _ t
    rw [hr, exec_forLoop hliteral hi]
  · obtain ⟨ts, v, hts, hcounts, hv⟩ := Run.Turns.all hc.1 hu hturn n.toNat (turns - n.toNat)
      (by omega) (Nat.le_refl _)
    have hlast : (n.toNat : Int) = max n 0 := by omega
    have hmin : min ((n.toNat : Int) + 1) (max n 1) = max n 1 := by omega
    obtain ⟨left, hleft⟩ : ∃ left, turns - n.toNat = left + 1 := ⟨turns - n.toNat - 1, by omega⟩
    rw [hmin] at hv
    refine ⟨ts, turns - n.toNat, v, hlast ▸ hts, hcounts, ?_, ?_, hv⟩
    · exact (hts.counted hc.1 fun _ => hu).1
    · rw [hr, hts.run_eq, hleft, Run.countLoop_succ, if_pos (by omega)]
      rfl
  · rw [hr, hts.run_eq, Run.countLoop_succ, if_pos hk]
    rfl
  · exact (hts.counted hc.1 fun _ => hu).2 hk
  · intro c w hrun hend
    -- behind this turn the statement is what the loop goes on with
    have hon : r = (m.countOn chain loc i n body left).run.run w := by
      rw [hr, hts.run_eq, Run.countLoop_succ, if_neg (Int.not_lt.mpr hk), Run.run_bind, hrun]
      dsimp only
      rw [Layer.resume_of_none (l := .loop _) hend]
      rfl
    refine ⟨fun l hl => ?_, fun x hx hkind => ?_, fun hnone => ?_⟩
    · exact hts.snoc hk hrun hend (run_advance_int hl)
    · rw [hon, run_countOn_other hx hkind]
    · rw [hon, run_countOn_none hnone]

end

/-- `FOR(i, ADD(1, 1)){ CONTINUE }` is run for one and two and leaves the variable at two.  With
`DEL(i)` for its block it fails behind the first turn. -/
theorem for_counts_two :
    let one : Argument := .positional (.literal ⟨1, 12⟩ (.int 1))
    let loop (stmt : Stmt) : Stmt :=
      .forLoop ⟨1, 1⟩ "i" (.call ⟨1, 8⟩ "ADD" [one, one]) (.mk ⟨1, 19⟩ [stmt])
    let delete : Stmt := .evaluate (.call ⟨1, 21⟩ "DEL" [.positional (.name ⟨1, 25⟩ "i")])
    let run (stmt : Stmt) := ((machine 9 30).exec Store.globalChain (loop stmt)).run.run .initial
    (∃ ts left v, (machine 9 29).Counts Store.globalChain ⟨1, 1⟩ "i" 2
          (.mk ⟨1, 19⟩ [.continueLoop ⟨1, 21⟩]) 9 1 (Store.initial.put 0 "i" (.int 1)) ts left 3 v ∧
        ts.map Run.Turn.count = [1, 2] ∧ run (.continueLoop ⟨1, 21⟩) = (.ok .normal, v) ∧
        v.get? Store.globalChain "i" = some (.int 2)) ∧
      run delete = (.error (.fault (.undefined "i") ⟨1, 1⟩), .initial) := by
  intro one loop delete run
  have hs : Store.initial.Sound True := Store.sound_initial
  have hc : Chain.Held .initial Store.globalChain :=
    ⟨List.cons_ne_nil _ _, fun id hid => List.mem_singleton.mp hid ▸ Nat.one_pos⟩
  have he : (((machine 9 29).under Weight.operand).eval Store.globalChain
      (.call ⟨1, 8⟩ "ADD" [one, one])).run.run .initial = (.ok (.int 2), .initial) := rfl
  constructor
  · obtain ⟨-, hall, -⟩ := @for_counts 9 29 Store.globalChain _ _ ⟨1, 1⟩ "i" _ 2
      (.mk ⟨1, 19⟩ [.continueLoop ⟨1, 21⟩]) hs hc he nofun
    obtain ⟨ts, left, v, hts, hcounts, -, hrun, hv⟩ := hall
      (fun _ _ _ v _ _ hv => ⟨.continuing, v, rfl, rfl, hv⟩) (by decide)
    exact ⟨ts, left, v, hts, hcounts, hrun, hv⟩
  · obtain ⟨-, -, hstep⟩ := @for_counts 9 29 Store.globalChain _ _ ⟨1, 1⟩ "i" _ 2
      (.mk ⟨1, 19⟩ [delete]) hs hc he nofun
    obtain ⟨-, hturn⟩ := hstep [] 8 1 _ .nil
    obtain ⟨-, -, hnone⟩ := (hturn (by decide)).2 .normal .initial rfl rfl
    exact hnone rfl

/-- `FUNC g(INT: i): INT { FOR(i, DEL(i)){}; RETURN(i) }`, called as `g(5)` where `i` is a text:
when the loop begins its variable is an integer, and its limit comes to zero, but the limit has
deleted the variable.  The text that it hid is seen, and the loop fails. -/
theorem limit_uncovers :
    let delete : Expr := .call ⟨1, 30⟩ "DEL" [.positional (.name ⟨1, 34⟩ "i")]
    let loop : Stmt := .forLoop ⟨1, 23⟩ "i" delete (.mk ⟨1, 37⟩ [])
    let g : Function := ⟨[⟨"INT", "i", none⟩], "INT",
      .mk ⟨1, 21⟩ [loop, .returnValue ⟨1, 41⟩ (some (.name ⟨1, 48⟩ "i"))], Store.globalChain⟩
    let s := (Store.initial.put 0 "i" (.str "x")).define "g" g
    let t := (s.addScope.put 1 "i" (.int 5)).calling "g"
    let u := t.remove 1 "i"
    (machine 9 30).Begins s ⟨1, 10⟩ "g" g ⟨[.int 5], []⟩ [1, 0] t ∧
      t.get? [1, 0] "i" = some (.int 5) ∧
      (((machine 9 26).under Weight.operand).eval [1, 0] delete).run.run t = (.ok (.int 0), u) ∧
      u.get? [1, 0] "i" = some (.str "x") ∧
      ((machine 9 27).exec [1, 0] loop).run.run t
        = (.error (.fault (.redeclared "i" .str) ⟨1, 23⟩), u) := by
  intro delete loop g s t u
  exact ⟨⟨_, rfl, rfl⟩, rfl, rfl, rfl, rfl⟩

end SpanScript
