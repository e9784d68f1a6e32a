import SpanScript.Proofs.Session.Deletions

/-!
# What parameters are bound to

A call binds the parameters of its function in order, in a scope of its own in front of
those of the function: each to the value at its position, or else to the one that its name
was given, or else to its default, which is evaluated where the parameters before it are
bound.  `Supplies` says what the values are, without looking at any type and without
stopping where there is none.

The loop that binds them takes a named value out once it is used.  What it has left in the
end are the names that no parameter behind the positional values has, so the call is
accepted if there are none, if there is a value for each parameter, and if each value has
its type.

Nothing but a default of a later parameter can change what a parameter is bound to, and it
can only delete it.

* `Source`, `Gives`, `Supplies`: where values come from, and what they are.
* `Arguments.Fit`: when a call is accepted.
* `Supplies.shows`: what can be seen in the scope.
* `run_bindParams`, `run_enter`: what the loop and the whole of it come to, and
  `supplies_of_enter`: what there was where they came to their end.
* `arguments_bind_exactly`: all of it for a call.
-/

namespace SpanScript

open Run Machine

/-- Where the value of a parameter comes from. -/
inductive Source
  | given (v : Value)
  | default (e : Expr)
  | missing

/-- A name is deleted on the way to a value. -/
def Source.Deletes : Source → String → Prop
  | .default e, x => e.Deletes x
  | .given _, _ | .missing, _ => False

namespace Machine.Arguments

def source (given : Arguments) (i : Nat) (p : Param) : Source :=
  match given.positional[i]? with
  | some v => .given v
  | none =>
    match given.named.lookup p.name with
    | some v => .given v
    | none =>
      match p.default with
      | some e => .default e
      | none => .missing

/-- A name is deleted by a default that is used for one of the parameters from a position
on. -/
def Deletes (given : Arguments) (x : String) : Nat → List Param → Prop
  | _, [] => False
  | i, p :: ps => (given.source i p).Deletes x ∨ given.Deletes x (i + 1) ps

/-- The values that there are for parameters are accepted: there are no more positional ones
than parameters, a name belongs to a parameter behind them, the other parameters there have
defaults, and all values have the types of their parameters. -/
structure Fit (given : Arguments) (params : List Param) (vs : List (Option Value)) : Prop where
  positional : given.positional.length ≤ params.length
  keywords : ∀ x ∈ given.named.map Prod.fst, ∃ (j : Nat) (p : Param),
    given.positional.length ≤ j ∧ params[j]? = some p ∧ p.name = x
  defaults : ∀ (j : Nat) (p : Param), given.positional.length ≤ j → params[j]? = some p →
    p.name ∉ given.named.map Prod.fst → p.default.isSome
  types : ∀ (j : Nat) (p : Param) (v : Value), params[j]? = some p → vs[j]? = some (some v) →
    v.kind.name = p.type

variable {given : Arguments} {i : Nat} {p : Param}

theorem source_of_positional {v : Value} (h : given.positional[i]? = some v) :
    given.source i p = .given v := by
  rw [source, h]

theorem source_of_named {v : Value} (h : given.positional.length ≤ i)
    (hn : given.named.lookup p.name = some v) : given.source i p = .given v := by
  rw [source, List.getElem?_eq_none h, hn]

theorem source_of_none (h : given.positional.length ≤ i)
    (hn : given.named.lookup p.name = none) :
    given.source i p = match p.default with
      | some e => .default e
      | none => .missing := by
  rw [source, List.getElem?_eq_none h, hn]

end Machine.Arguments

/-- What a source gives: the value, if there is one, and the store with it. -/
inductive Gives (m : Machine) (chain : Chain) (s : Store) : Source → Option Value → Store → Prop
  | given (v : Value) : Gives m chain s (.given v) (some v) s
  | default {e : Expr} {v : Value} {t : Store} :
    ((m.under Weight.body).eval chain e).run.run s = (.ok v, t) →
    Gives m chain s (.default e) (some v) t
  | missing : Gives m chain s .missing none s

/-- The store with a name put into a scope, if there is a value for it. -/
def Store.supplied (s : Store) (scope : Nat) (x : String) : Option Value → Store
  | some v => s.put scope x v
  | none => s

/-- What the values of parameters are, from a position on: `Supplies m scope closure given i
ps s vs t` if each parameter of `ps`, the first of which is at position `i`, is put into the
scope in turn with what its source gives.  The values are `vs`, with nothing where a
parameter has none. -/
inductive Supplies (m : Machine) (scope : Nat) (closure : Chain) (given : Arguments) :
    Nat → List Param → Store → List (Option Value) → Store → Prop
  | nil {i : Nat} {s : Store} : Supplies m scope closure given i [] s [] s
  | cons {i : Nat} {p : Param} {ps : List Param} {s t u : Store} {v : Option Value}
      {vs : List (Option Value)} : Gives m (scope :: closure) s (given.source i p) v t →
    Supplies m scope closure given (i + 1) ps (t.supplied scope p.name v) vs u →
    Supplies m scope closure given i (p :: ps) s (v :: vs) u

/-- A value is what its source gives once the parameters before have been supplied. -/
theorem Supplies.gives {m : Machine} {scope : Nat} {closure : Chain} {given : Arguments} {i : Nat}
    {ps : List Param} {s t : Store} {vs : List (Option Value)}
    (h : Supplies m scope closure given i ps s vs t) : ∀ (j : Nat) (p : Param), ps[j]? = some p →
      ∃ u v u', Supplies m scope closure given i (ps.take j) s (vs.take j) u ∧
        Gives m (scope :: closure) u (given.source (i + j) p) v u' ∧ vs[j]? = some v := by
  induction h with
  | nil => exact fun _ _ hp => nomatch hp
  | @cons i p ps s t u v vs hgives hrest ih =>
    intro j q hq
    cases j with
    | zero =>
      cases hq
      exact ⟨s, v, t, .nil, hgives, rfl⟩
    | succ j =>
      obtain ⟨w, v', w', htake, hgives', hv'⟩ := ih j q hq
      have hindex : i + 1 + j = i + (j + 1) := by omega
      exact ⟨w, v', w', .cons hgives htake, hindex ▸ hgives', hv'⟩

theorem Supplies.value_of_given {m : Machine} {scope : Nat} {closure : Chain} {given : Arguments}
    {ps : List Param} {s t : Store} {vs : List (Option Value)} {j : Nat} {p : Param} {v : Value}
    (h : Supplies m scope closure given 0 ps s vs t) (hp : ps[j]? = some p)
    (hv : given.source j p = .given v) : vs[j]? = some (some v) := by
  obtain ⟨_, w, _, -, hgives, hw⟩ := h.gives j p hp
  rw [Nat.zero_add, hv] at hgives
  cases hgives
  exact hw

/-! ## What can be seen in the scope -/

section

variable {turns levels scope i : Nat} {closure : Chain} {given : Arguments} {p : Param}
  {ps : List Param} {s t u : Store} {vs : List (Option Value)} {v : Option Value}

theorem Store.lookup_supplied (h : scope < s.scopes.size) {x y : String} (hxy : v ≠ none → y ≠ x) :
    ((s.supplied scope x v).scope scope).lookup y = (s.scope scope).lookup y := by
  cases v with
  | none => rfl
  | some v => rw [supplied, scope_put_self s h, Scope.lookup_put, if_neg (hxy nofun)]

theorem Store.size_supplied (x : String) :
    (s.supplied scope x v).scopes.size = s.scopes.size := by
  cases v with
  | none => rfl
  | some v => exact s.size_put scope x v

theorem Store.captures_supplied (x : String) {id : Nat} :
    (s.supplied scope x v).Captures id ↔ s.Captures id := by
  cases v <;> rfl

theorem Store.size_lt_addScope (s : Store) : s.scopes.size < s.addScope.scopes.size := by
  rw [addScope, Array.size_push]
  exact Nat.lt_succ_self _

theorem Store.scope_addScope_size (s : Store) : s.addScope.scope s.scopes.size = [] := by
  rw [scope_addScope, scope, Array.getElem?_eq_none (Nat.le_refl _)]
  rfl

/-- No function is defined in a new scope. -/
theorem Store.Sound.not_captures_size {D : Prop} (h : s.Sound D) :
    ¬ s.addScope.Captures s.scopes.size := by
  rintro ⟨f, hf, hmem⟩
  exact Nat.lt_irrefl _ ((h.closures f hf).2 _ hmem)

/-- On the way to a value nothing becomes of the scope but that names are deleted. -/
theorem Gives.drops {source : Source}
    (h : Gives (machine turns levels) (scope :: closure) s source v t)
    (hs : scope < s.scopes.size) (hc : ¬ s.Captures scope) : s.Drops scope source.Deletes t := by
  cases h with
  | given v => exact ⟨Nat.le_refl _, hc, fun _ => False.elim, fun _ _ => rfl⟩
  | missing => exact ⟨Nat.le_refl _, hc, fun _ => False.elim, fun _ _ => rfl⟩
  | default heval =>
    exact (machine_drops turns scope closure levels).under Weight.body 0 _ s t _ hs hc heval

/-- A name of no parameter with a value is bound as before, unless a default deletes it. -/
theorem Supplies.other
    (h : Supplies (machine turns levels) scope closure given i ps s vs u) :
    scope < s.scopes.size → ¬ s.Captures scope → ∀ x : String,
      (∀ (j : Nat) (p : Param) (v : Value), ps[j]? = some p → vs[j]? = some (some v) →
        p.name ≠ x) →
      (given.Deletes x i ps → (u.scope scope).lookup x = none) ∧
      (¬ given.Deletes x i ps → (u.scope scope).lookup x = (s.scope scope).lookup x) := by
  induction h with
  | nil => exact fun _ _ _ _ => ⟨False.elim, fun _ => rfl⟩
  | @cons i p ps s t u v vs hgives hrest ih =>
    intro hs hc x hx
    have hdrops := hgives.drops hs hc
    have ht : scope < t.scopes.size := Nat.lt_of_lt_of_le hs hdrops.size
    have hname : v ≠ none → x ≠ p.name := by
      intro hv
      obtain ⟨w, rfl⟩ := Option.ne_none_iff_exists'.mp hv
      exact (hx 0 p w rfl rfl).symm
    obtain ⟨hgone, hkept⟩ := ih (by rwa [Store.size_supplied])
      (mt (Store.captures_supplied p.name).mp hdrops.uncaptured) x fun j => hx (j + 1)
    rw [Store.lookup_supplied ht hname] at hkept
    constructor
    · intro hd
      by_cases hlater : given.Deletes x (i + 1) ps
      · exact hgone hlater
      · rw [hkept hlater]
        exact hdrops.unbound x (hd.resolve_right hlater)
    · intro hd
      obtain ⟨hnow, hlater⟩ := not_or.mp hd
      rw [hkept hlater, hdrops.kept x hnow]

/-- A parameter is bound to its own value, unless a default of a later one deletes it. -/
theorem Supplies.own
    (h : Supplies (machine turns levels) scope closure given i ps s vs u) :
    scope < s.scopes.size → ¬ s.Captures scope → (ps.map Param.name).Nodup →
    ∀ (j : Nat) (p : Param) (v : Value), ps[j]? = some p → vs[j]? = some (some v) →
      (given.Deletes p.name (i + j + 1) (ps.drop (j + 1)) →
        (u.scope scope).lookup p.name = none) ∧
      (¬ given.Deletes p.name (i + j + 1) (ps.drop (j + 1)) →
        (u.scope scope).lookup p.name = some v) := by
  induction h with
  | nil => exact fun _ _ _ _ _ _ hp => nomatch hp
  | @cons i p ps s t u v vs hgives hrest ih =>
    intro hs hc hnames j q w hq hw
    have hdrops := hgives.drops hs hc
    obtain ⟨hp, hnames⟩ := List.nodup_cons.mp hnames
    have ht : scope < t.scopes.size := Nat.lt_of_lt_of_le hs hdrops.size
    have hs' : scope < (t.supplied scope p.name v).scopes.size := by rwa [Store.size_supplied]
    have hc' : ¬ (t.supplied scope p.name v).Captures scope :=
      mt (Store.captures_supplied p.name).mp hdrops.uncaptured
    cases j with
    | zero =>
      obtain rfl : p = q := Option.some.inj hq
      obtain rfl : v = some w := Option.some.inj hw
      obtain ⟨hgone, hkept⟩ := hrest.other hs' hc' p.name fun j q _ hq _ he =>
        hp (he ▸ List.mem_map_of_mem (List.mem_of_getElem? hq))
      refine ⟨hgone, fun hd => (hkept hd).trans ?_⟩
      rw [Store.supplied, Store.scope_put_self t ht, Scope.lookup_put, if_pos rfl]
    | succ j =>
      have hindex : i + 1 + j + 1 = i + (j + 1) + 1 := by omega
      exact hindex ▸ ih hs' hc' hnames j q w hq hw

/-- What can be seen through the scope of a call: each parameter that has a value as its own
value, unless a default of a later one deletes it, and everything else as from the scopes of
the function. -/
structure Store.Shows (t : Store) (scope : Nat) (closure : Chain) (given : Arguments)
    (ps : List Param) (vs : List (Option Value)) : Prop where
  own : ∀ (j : Nat) (p : Param) (v : Value), ps[j]? = some p → vs[j]? = some (some v) →
    ¬ given.Deletes p.name (j + 1) (ps.drop (j + 1)) →
    t.get? (scope :: closure) p.name = some v
  others : ∀ x : String, (∀ (j : Nat) (p : Param) (v : Value), ps[j]? = some p →
    vs[j]? = some (some v) → p.name = x → given.Deletes x (j + 1) (ps.drop (j + 1))) →
    t.get? (scope :: closure) x = t.get? closure x

theorem Store.get?_of_lookup {x : String} {w : Value}
    (h : (t.scope scope).lookup x = some w) : t.get? (scope :: closure) x = some w := by
  have hbinds : (t.scope scope).binds x = true := by
    rw [Scope.binds, h]
    rfl
  rw [get?, scopeOf?, List.find?_cons_of_pos (p := fun id => (t.scope id).binds x) hbinds]
  exact h

theorem Store.get?_of_lookup_none {x : String} (h : (t.scope scope).lookup x = none) :
    t.get? (scope :: closure) x = t.get? closure x := by
  have hbinds : ¬ (t.scope scope).binds x = true := by
    rw [Scope.binds, h]
    exact Bool.false_ne_true
  rw [get?, scopeOf?, List.find?_cons_of_neg (p := fun id => (t.scope id).binds x) hbinds]
  rfl

/-- **What can be seen** once some of the parameters of a call have been supplied. -/
theorem Supplies.shows
    (h : Supplies (machine turns levels) scope closure given 0 ps s vs u)
    (hs : scope < s.scopes.size) (hc : ¬ s.Captures scope) (hempty : s.scope scope = [])
    (hnames : (ps.map Param.name).Nodup) : u.Shows scope closure given ps vs where
  own j p v hp hv hd := by
    refine Store.get?_of_lookup ((h.own hs hc hnames j p v hp hv).2 ?_)
    rwa [Nat.zero_add]
  others x hx := by
    refine Store.get?_of_lookup_none ?_
    by_cases hsupplied : ∃ (j : Nat) (p : Param) (v : Value), ps[j]? = some p ∧
        vs[j]? = some (some v) ∧ p.name = x
    · obtain ⟨j, p, v, hp, hv, rfl⟩ := hsupplied
      refine (h.own hs hc hnames j p v hp hv).1 ?_
      rw [Nat.zero_add]
      exact hx j p v hp hv rfl
    · obtain ⟨hgone, hkept⟩ := h.other hs hc x fun j p v hp hv he =>
        hsupplied ⟨j, p, v, hp, hv, he⟩
      by_cases hd : given.Deletes x 0 ps
      · exact hgone hd
      · rw [hkept hd, hempty]
        rfl

end

/-! ## The loop that binds them -/

/-- There is a value of its type for each parameter. -/
def Accepts (ps : List Param) (vs : List (Option Value)) : Prop :=
  ∀ (j : Nat) (p : Param), ps[j]? = some p → ∃ v, vs[j]? = some (some v) ∧ v.kind.name = p.type

/-- Binding parameters gives an answer, or halts if there is no value of its type for one of
them. -/
def Binds {α : Type} (ps : List Param) (vs : List (Option Value)) (r : Except Halt α × Store)
    (a : α) (t : Store) : Prop :=
  (Accepts ps vs ∧ r = (.ok a, t)) ∨ (¬ Accepts ps vs ∧ ∃ h u, r = (.error h, u))

section

variable {scope i : Nat} {closure : Chain} {given : Arguments} {p : Param} {ps : List Param}
  {s t : Store} {v : Option Value} {vs : List (Option Value)} {α : Type}

theorem accepts_nil : Accepts [] [] := by
  intro j p hp
  cases hp

theorem accepts_cons :
    Accepts (p :: ps) (v :: vs) ↔ (∃ w, v = some w ∧ w.kind.name = p.type) ∧ Accepts ps vs := by
  constructor
  · intro h
    obtain ⟨w, hw, htype⟩ := h 0 p rfl
    exact ⟨⟨w, Option.some.inj hw, htype⟩, fun j q hq => h (j + 1) q hq⟩
  · rintro ⟨⟨w, rfl, htype⟩, hrest⟩ j q hq
    cases j with
    | zero =>
      cases hq
      exact ⟨w, rfl, htype⟩
    | succ j => exact hrest j q hq

/-- A value is bound if it has the type of its parameter. -/
theorem Binds.cons {loc : Location} {w : Value} {k : Unit → Run α} {a : α}
    (h : Binds ps vs ((k ()).run.run (s.put scope p.name w)) a t) :
    Binds (p :: ps) (some w :: vs) ((bindParam loc scope p w >>= k).run.run s) a t := by
  rw [Run.run_bind]
  by_cases htype : w.kind.name = p.type
  · have hbind : (bindParam loc scope p w).run.run s = (.ok (), s.put scope p.name w) := by
      rw [bindParam, if_neg (not_not_intro htype)]
      rfl
    rw [hbind]
    obtain ⟨haccepts, hrun⟩ | ⟨haccepts, hrun⟩ := h
    · exact .inl ⟨accepts_cons.mpr ⟨⟨w, rfl, htype⟩, haccepts⟩, hrun⟩
    · exact .inr ⟨fun h => haccepts (accepts_cons.mp h).2, hrun⟩
  · have hbind : (bindParam loc scope p w).run.run s
        = (.error (.fault (.argumentMismatch p.name p.type w.kind) loc), s) := by
      rw [bindParam, if_pos htype]
      rfl
    rw [hbind]
    refine .inr ⟨fun h => ?_, _, _, rfl⟩
    obtain ⟨⟨_, hw, hok⟩, -⟩ := accepts_cons.mp h
    exact htype (Option.some.inj hw ▸ hok)

/-- The other names are given the same values where one name is taken out. -/
theorem lookup_others {named : List (String × Value)} (hp : p.name ∉ ps.map Param.name)
    (h : ∀ q ∈ ps, named.lookup q.name = given.named.lookup q.name) :
    ∀ q ∈ ps, (named.filter fun (x, _) => x != p.name).lookup q.name
      = given.named.lookup q.name := by
  intro q hq
  have hne : q.name ≠ p.name := fun he => hp (he ▸ List.mem_map_of_mem hq)
  exact ((Scope.lookup_remove p.name named q.name).trans (if_neg hne)).trans (h q hq)

theorem filter_ne_of_lookup {named : List (String × Value)} {x : String}
    (h : named.lookup x = none) : (named.filter fun (z, _) => z != x) = named := by
  refine List.filter_eq_self.mpr fun b hb => ?_
  refine bne_iff_ne.mpr fun heq => ?_
  have hsome := List.lookup_isSome_iff.mpr ⟨b, hb, beq_iff_eq.mpr heq.symm⟩
  rw [h] at hsome
  cases hsome

/-- What is left without the name of the first parameter and those of the others. -/
theorem filter_names_remove {named : List (String × Value)} {k : Nat} (h : k ≤ i) (p : Param)
    (ps : List Param) :
    (named.filter fun b => b.1 ∉ ((p :: ps).drop (k - i)).map Param.name)
      = (named.filter fun (z, _) => z != p.name).filter fun b =>
          b.1 ∉ (ps.drop (k - (i + 1))).map Param.name := by
  rw [Nat.sub_eq_zero_of_le h, Nat.sub_eq_zero_of_le (Nat.le_succ_of_le h), List.drop_zero,
    List.drop_zero, List.filter_filter]
  refine List.filter_congr fun b _ => ?_
  by_cases hb : b.1 = p.name <;> simp [hb]

/-- **The loop that binds parameters** binds each to its value and leaves of the named values
those with the name of no parameter behind the positional values. -/
theorem run_bindParams {m : Machine} (loc : Location) (function : String)
    (h : Supplies m scope closure given i ps s vs t) :
    (ps.map Param.name).Nodup → ∀ named : List (String × Value),
      (∀ p ∈ ps, named.lookup p.name = given.named.lookup p.name) →
      Binds ps vs ((m.bindParams loc function scope (scope :: closure) ps
          (given.positional.drop i) named).run.run s)
        (named.filter fun b => b.1 ∉ (ps.drop (given.positional.length - i)).map Param.name) t := by
  induction h with
  | @nil i s =>
    intro _ named _
    have hall : (named.filter fun b => b.1 ∉ (([] : List Param).drop
        (given.positional.length - i)).map Param.name) = named := by
      simp only [List.drop_nil, List.map_nil, List.not_mem_nil, not_false_eq_true, decide_true,
        List.filter_true]
    rw [hall]
    exact .inl ⟨accepts_nil, rfl⟩
  | @cons i p ps s t u v vs hgives _ ih =>
    intro hnames named hnamed
    obtain ⟨hp, hnames⟩ := List.nodup_cons.mp hnames
    have hothers : ∀ q ∈ ps, named.lookup q.name = given.named.lookup q.name :=
      fun q hq => hnamed q (List.mem_cons_of_mem _ hq)
    by_cases hlt : i < given.positional.length
    · -- the value at its position
      rw [Arguments.source_of_positional (List.getElem?_eq_getElem hlt)] at hgives
      cases hgives
      have hdrop : given.positional.length - i = given.positional.length - (i + 1) + 1 := by omega
      rw [List.drop_eq_getElem_cons hlt, hdrop, List.drop_succ_cons]
      exact .cons (ih hnames named hothers)
    · have hle : given.positional.length ≤ i := Nat.not_lt.mp hlt
      have hlookup := hnamed p List.mem_cons_self
      rw [List.drop_eq_nil_of_le (Nat.le_succ_of_le hle)] at ih
      rw [List.drop_eq_nil_of_le hle, filter_names_remove hle p ps, bindParams, hlookup]
      cases hn : given.named.lookup p.name with
      | some w =>
        -- the value that its name was given, which is taken out
        rw [Arguments.source_of_named hle hn] at hgives
        cases hgives
        exact .cons (ih hnames _ (lookup_others hp hothers))
      | none =>
        rw [Arguments.source_of_none hle hn] at hgives
        rw [filter_ne_of_lookup (hlookup.trans hn)]
        cases hdefault : p.default with
        | some e =>
          rw [hdefault] at hgives
          cases hgives with
          | default heval =>
            dsimp only
            rw [Run.run_bind, heval]
            exact .cons (ih hnames named hothers)
        | none =>
          rw [hdefault] at hgives
          cases hgives
          refine .inr ⟨fun haccepts => ?_, _, _, rfl⟩
          obtain ⟨⟨_, hw, -⟩, -⟩ := accepts_cons.mp haccepts
          cases hw

theorem bindParam_eq_ok {loc : Location} {w : Value} {r : Unit}
    (h : (bindParam loc scope p w).run.run s = (.ok r, t)) : t = s.put scope p.name w := by
  rw [bindParam] at h
  by_cases htype : w.kind.name = p.type
  · rw [if_neg (not_not_intro htype)] at h
    cases h
    rfl
  · rw [if_pos htype] at h
    cases h

/-- Where the loop comes to its end there was a value for each parameter. -/
theorem exists_supplies {m : Machine} {loc : Location} {function : String} :
    ∀ {ps : List Param} {i : Nat} {named left : List (String × Value)} {s : Store},
      (ps.map Param.name).Nodup →
      (∀ p ∈ ps, named.lookup p.name = given.named.lookup p.name) →
      (m.bindParams loc function scope (scope :: closure) ps (given.positional.drop i)
        named).run.run s = (.ok left, t) →
      ∃ vs, Supplies m scope closure given i ps s vs t := by
  intro ps
  induction ps with
  | nil =>
    intro i named left s _ _ h
    cases h
    exact ⟨[], .nil⟩
  | cons p ps ih =>
    intro i named left s hnames hnamed h
    obtain ⟨hp, hnames⟩ := List.nodup_cons.mp hnames
    have hothers : ∀ q ∈ ps, named.lookup q.name = given.named.lookup q.name :=
      fun q hq => hnamed q (List.mem_cons_of_mem _ hq)
    by_cases hlt : i < given.positional.length
    · rw [List.drop_eq_getElem_cons hlt] at h
      obtain ⟨_, u, hbind, hrest⟩ := run_bind_eq_ok h
      obtain rfl := bindParam_eq_ok hbind
      obtain ⟨vs, hsupplies⟩ := ih hnames hothers hrest
      refine ⟨some given.positional[i] :: vs, .cons ?_ hsupplies⟩
      rw [Arguments.source_of_positional (List.getElem?_eq_getElem hlt)]
      exact .given _
    · have hle : given.positional.length ≤ i := Nat.not_lt.mp hlt
      have hnil : given.positional.drop (i + 1) = [] :=
        List.drop_eq_nil_of_le (Nat.le_succ_of_le hle)
      have hlookup := hnamed p List.mem_cons_self
      rw [List.drop_eq_nil_of_le hle, bindParams, hlookup] at h
      cases hn : given.named.lookup p.name with
      | some w =>
        rw [hn] at h
        obtain ⟨_, u, hbind, hrest⟩ := run_bind_eq_ok h
        obtain rfl := bindParam_eq_ok hbind
        obtain ⟨vs, hsupplies⟩ := ih hnames (lookup_others hp hothers) (hnil ▸ hrest)
        refine ⟨some w :: vs, .cons ?_ hsupplies⟩
        rw [Arguments.source_of_named hle hn]
        exact .given w
      | none =>
        rw [hn] at h
        cases hdefault : p.default with
        | none =>
          rw [hdefault] at h
          cases h
        | some e =>
          rw [hdefault] at h
          obtain ⟨w, u, heval, hbound⟩ := run_bind_eq_ok h
          obtain ⟨_, v, hbind, hrest⟩ := run_bind_eq_ok hbound
          obtain rfl := bindParam_eq_ok hbind
          obtain ⟨vs, hsupplies⟩ := ih hnames hothers (hnil ▸ hrest)
          refine ⟨some w :: vs, .cons ?_ hsupplies⟩
          rw [Arguments.source_of_none hle hn, hdefault]
          exact .default heval

end

/-! ## Calls -/

section

variable {given : Arguments} {s t : Store} {f : Function} {ps : List Param}
  {vs : List (Option Value)}

theorem mem_names_drop {k : Nat} {x : String} : x ∈ (ps.drop k).map Param.name ↔
    ∃ (j : Nat) (p : Param), k ≤ j ∧ ps[j]? = some p ∧ p.name = x := by
  rw [List.mem_map]
  constructor
  · rintro ⟨p, hp, hx⟩
    obtain ⟨j, hj⟩ := List.mem_iff_getElem?.mp hp
    rw [List.getElem?_drop] at hj
    exact ⟨k + j, p, Nat.le_add_right k j, hj, hx⟩
  · rintro ⟨j, p, hj, hp, hx⟩
    refine ⟨p, List.mem_iff_getElem?.mpr ⟨j - k, ?_⟩, hx⟩
    rwa [List.getElem?_drop, Nat.add_sub_cancel' hj]

/-- A parameter has no value if it is behind the positional ones, its name was given none, and
it has no default. -/
theorem Machine.Arguments.source_eq_missing {j : Nat} {p : Param} :
    given.source j p = .missing ↔ given.positional.length ≤ j ∧
      p.name ∉ given.named.map Prod.fst ∧ ¬ p.default.isSome := by
  have hnamed : p.name ∉ given.named.map Prod.fst ↔ given.named.lookup p.name = none := by
    simp only [List.lookup_eq_none_iff, List.mem_map, bne_iff_ne, not_exists, not_and]
    exact forall₂_congr fun _ _ => ne_comm
  rw [hnamed, source]
  by_cases hj : given.positional.length ≤ j
  · rw [List.getElem?_eq_none hj]
    cases given.named.lookup p.name <;> cases p.default <;> simp [hj]
  · rw [List.getElem?_eq_getElem (Nat.not_le.mp hj)]
    simp [hj]

theorem Gives.eq_none_iff {m : Machine} {chain : Chain} {source : Source} {v : Option Value}
    (h : Gives m chain s source v t) : v = none ↔ source = .missing := by
  cases h <;> simp

/-- The values are accepted if there are not too many by position, each parameter has one of
its type, and no named one is left. -/
theorem Supplies.fit_iff {m : Machine} {scope : Nat} {closure : Chain}
    (h : Supplies m scope closure given 0 ps s vs t) : given.Fit ps vs ↔
      given.positional.length ≤ ps.length ∧ Accepts ps vs ∧
        (given.named.filter fun b =>
          b.1 ∉ (ps.drop given.positional.length).map Param.name) = [] := by
  have hleft : (given.named.filter fun b =>
      b.1 ∉ (ps.drop given.positional.length).map Param.name) = [] ↔
      ∀ x ∈ given.named.map Prod.fst, x ∈ (ps.drop given.positional.length).map Param.name := by
    simp only [List.filter_eq_nil_iff, decide_eq_true_iff, not_not, List.forall_mem_map]
  rw [hleft]
  constructor
  · intro hfit
    refine ⟨hfit.positional, fun j p hp => ?_, fun x hx => mem_names_drop.mpr (hfit.keywords x hx)⟩
    obtain ⟨_, v, _, -, hgives, hv⟩ := h.gives j p hp
    cases v with
    | some v => exact ⟨v, hv, hfit.types j p v hp hv⟩
    | none =>
      rw [Nat.zero_add] at hgives
      obtain ⟨hj, hname, hdefault⟩ := Arguments.source_eq_missing.mp (hgives.eq_none_iff.mp rfl)
      exact absurd (hfit.defaults j p hj hp hname) hdefault
  · rintro ⟨hpositional, haccepts, hnames⟩
    refine ⟨hpositional, fun x hx => mem_names_drop.mp (hnames x hx), fun j p hj hp hname => ?_,
      fun j p v hp hv => ?_⟩
    · by_contra hdefault
      obtain ⟨_, v, _, -, hgives, hv⟩ := h.gives j p hp
      rw [Nat.zero_add] at hgives
      have hnone := hgives.eq_none_iff.mpr (Arguments.source_eq_missing.mpr ⟨hj, hname, hdefault⟩)
      obtain ⟨w, hw, -⟩ := haccepts j p hp
      rw [hnone, hw] at hv
      cases hv
    · obtain ⟨w, hw, htype⟩ := haccepts j p hp
      rw [hv] at hw
      cases hw
      exact htype

/-- **A call is entered** if its values are accepted, with its parameters bound to them, and
otherwise halts. -/
theorem run_enter {m : Machine} (loc : Location) (name : String)
    (hnames : (f.params.map Param.name).Nodup)
    (h : Supplies m s.scopes.size f.closure given 0 f.params s.addScope vs t) :
    (given.Fit f.params vs ∧
        (m.enter loc name f given).run.run s = (.ok (s.scopes.size :: f.closure), t)) ∨
      (¬ given.Fit f.params vs ∧ ∃ h u, (m.enter loc name f given).run.run s = (.error h, u)) := by
  have hbinds := run_bindParams loc name h hnames given.named fun _ _ => rfl
  rw [h.fit_iff, enter]
  by_cases hmany : f.params.length < given.positional.length
  · rw [if_pos hmany]
    exact .inr ⟨fun hfit => absurd hfit.1 (Nat.not_le.mpr hmany), _, _, rfl⟩
  · rw [if_neg hmany]
    change _ ∧ (m.bindParams loc name s.scopes.size (s.scopes.size :: f.closure) f.params
        given.positional given.named >>= _ : Run Chain).run.run s.addScope = _ ∨ _ ∧ ∃ h u,
      (m.bindParams loc name s.scopes.size (s.scopes.size :: f.closure) f.params
        given.positional given.named >>= _ : Run Chain).run.run s.addScope = (.error h, u)
    rw [Run.run_bind]
    rw [List.drop_zero, Nat.sub_zero] at hbinds
    obtain ⟨haccepts, hrun⟩ | ⟨haccepts, h, u, hrun⟩ := hbinds
    · rw [hrun]
      by_cases hleft : (given.named.filter fun b =>
          b.1 ∉ (f.params.drop given.positional.length).map Param.name) = []
      · rw [hleft]
        exact .inl ⟨⟨Nat.not_lt.mp hmany, haccepts, rfl⟩, rfl⟩
      · refine .inr ⟨fun hfit => hleft hfit.2.2, ?_⟩
        dsimp only
        rw [if_neg (mt List.isEmpty_iff.mp hleft)]
        exact ⟨_, _, rfl⟩
    · rw [hrun]
      exact .inr ⟨fun hfit => haccepts hfit.2.1, _, _, rfl⟩

/-- Where a call is entered there was a value for each parameter. -/
theorem supplies_of_enter {m : Machine} {loc : Location} {name : String} {chain : Chain}
    (hnames : (f.params.map Param.name).Nodup)
    (h : (m.enter loc name f given).run.run s = (.ok chain, t)) :
    ∃ vs, Supplies m s.scopes.size f.closure given 0 f.params s.addScope vs t := by
  rw [enter] at h
  by_cases hmany : f.params.length < given.positional.length
  · rw [if_pos hmany] at h
    cases h
  · rw [if_neg hmany] at h
    obtain ⟨scope, u, hscope, hbound⟩ := run_bind_eq_ok h
    cases hscope
    obtain ⟨left, v, hbind, hend⟩ := run_bind_eq_ok hbound
    have hv : v = t := by
      by_cases hleft : left.isEmpty
      · rw [if_pos hleft] at hend
        cases hend
        rfl
      · rw [if_neg hleft] at hend
        cases hend
    exact hv ▸ exists_supplies hnames (fun _ _ => rfl) hbind

/-- A positional value is that of the parameter at its position. -/
theorem Supplies.value_of_positional {m : Machine} {scope : Nat} {closure : Chain} {j : Nat}
    {v : Value} (h : Supplies m scope closure given 0 ps s vs t) (hfit : given.Fit ps vs)
    (hv : given.positional[j]? = some v) : j < ps.length ∧ vs[j]? = some (some v) := by
  have hj : j < ps.length :=
    Nat.lt_of_lt_of_le (List.getElem?_eq_some_iff.mp hv).1 hfit.positional
  exact ⟨hj, h.value_of_given (List.getElem?_eq_getElem hj) (Arguments.source_of_positional hv)⟩

/-- A named value is that of a parameter of its name. -/
theorem Supplies.value_of_named {m : Machine} {scope : Nat} {closure : Chain} {x : String}
    {v : Value} (h : Supplies m scope closure given 0 ps s vs t) (hfit : given.Fit ps vs)
    (hv : given.named.lookup x = some v) : ∃ (j : Nat) (p : Param),
      ps[j]? = some p ∧ p.name = x ∧ vs[j]? = some (some v) := by
  obtain ⟨before, after, hnamed, -⟩ := List.lookup_eq_some_iff.mp hv
  have hmem : (x, v) ∈ given.named := hnamed ▸ List.mem_append_right _ List.mem_cons_self
  obtain ⟨j, p, hj, hp, rfl⟩ := hfit.keywords x (List.mem_map_of_mem hmem)
  exact ⟨j, p, hp, rfl, h.value_of_given hp (Arguments.source_of_named hj hv)⟩

/-- The value of a parameter is what its source gives where the parameters before it can be
seen. -/
theorem Supplies.gives_shown {turns levels scope : Nat} {closure : Chain}
    (h : Supplies (machine turns levels) scope closure given 0 ps s vs t)
    (hs : scope < s.scopes.size) (hc : ¬ s.Captures scope) (hempty : s.scope scope = [])
    (hnames : (ps.map Param.name).Nodup) {j : Nat} {p : Param} (hp : ps[j]? = some p) :
    ∃ u v u', u.Shows scope closure given (ps.take j) (vs.take j) ∧
      Gives (machine turns levels) (scope :: closure) u (given.source j p) v u' ∧
      vs[j]? = some v := by
  obtain ⟨u, v, u', htake, hgives, hv⟩ := h.gives j p hp
  rw [Nat.zero_add] at hgives
  have htaken : ((ps.take j).map Param.name).Nodup := by
    rw [List.map_take]
    exact hnames.sublist (List.take_sublist _ _)
  exact ⟨u, v, u', htake.shows hs hc hempty htaken, hgives, hv⟩

end

/-- **Parameters are bound to what was given for them.**

A function is called whose parameters have names of their own.  The call is entered exactly
if there are values for its parameters, the defaults that are used being evaluated where the
parameters before them have been bound, and if these values are accepted: there are not more
positional ones than parameters, each name that is given a value belongs to a parameter
behind those, every other parameter behind them has a default, and each value has the type
of its parameter.  In particular, where the defaults can be evaluated this alone decides.

Then the body sees a scope of its own in front of those of the function: each parameter as
its own value unless the default of a later one deletes it, and everything else as from
there.  No value is lost: each is that of the parameter at its position, or of its name.

The value of a parameter is the one at its position, else the one of its name, else the one
of its default, which sees the parameters before it in the same way. -/
theorem arguments_bind_exactly {turns levels : Nat} {s : Store} (loc : Location) (name : String)
    {f : Function} {given : Arguments} (hs : s.Sound True)
    (hnames : (f.params.map Param.name).Nodup) :
    let m := machine turns levels
    let scope := s.scopes.size
    let r := (m.enter loc name f given).run.run s
    (∀ chain t, r = (.ok chain, t) ↔ chain = scope :: f.closure ∧ ∃ vs,
      Supplies m scope f.closure given 0 f.params s.addScope vs t ∧ given.Fit f.params vs) ∧
    ∀ vs t, Supplies m scope f.closure given 0 f.params s.addScope vs t →
      ((∃ chain u, r = (.ok chain, u)) ↔ given.Fit f.params vs) ∧
      (given.Fit f.params vs →
        r = (.ok (scope :: f.closure), t) ∧ t.Shows scope f.closure given f.params vs ∧
        (∀ j v, given.positional[j]? = some v →
          j < f.params.length ∧ vs[j]? = some (some v)) ∧
        ∀ x v, given.named.lookup x = some v → ∃ (j : Nat) (p : Param),
          f.params[j]? = some p ∧ p.name = x ∧ vs[j]? = some (some v)) ∧
      ∀ (j : Nat) (p : Param), f.params[j]? = some p → ∃ u v u',
        u.Shows scope f.closure given (f.params.take j) (vs.take j) ∧
        Gives m (scope :: f.closure) u (given.source j p) v u' ∧ vs[j]? = some v := by
  intro m scope r
  have hscope : scope < s.addScope.scopes.size := s.size_lt_addScope
  have hempty : s.addScope.scope scope = [] := s.scope_addScope_size
  have hok {vs : List (Option Value)} {t : Store}
      (h : Supplies m scope f.closure given 0 f.params s.addScope vs t)
      (hfit : given.Fit f.params vs) : r = (.ok (scope :: f.closure), t) :=
    (run_enter loc name hnames h).elim And.right fun hunfit => absurd hfit hunfit.1
  have hfit {vs : List (Option Value)} {t u : Store} {chain : Chain}
      (h : Supplies m scope f.closure given 0 f.params s.addScope vs t)
      (hentered : r = (.ok chain, u)) : given.Fit f.params vs := by
    obtain ⟨hfit, -⟩ | ⟨-, _, _, hhalted⟩ := run_enter loc name hnames h
    · exact hfit
    · cases hentered.symm.trans hhalted
  constructor
  · intro chain t
    constructor
    · intro hentered
      obtain ⟨vs, h⟩ := supplies_of_enter hnames hentered
      exact ⟨enter_eq (congrArg Prod.fst hentered), vs, h, hfit h hentered⟩
    · rintro ⟨rfl, vs, h, hfit⟩
      exact hok h hfit
  · intro vs t h
    refine ⟨⟨?_, fun hfit => ⟨_, _, hok h hfit⟩⟩, fun hfit => ⟨hok h hfit, ?_, ?_, ?_⟩, ?_⟩
    · rintro ⟨chain, u, hentered⟩
      exact hfit h hentered
    · exact h.shows hscope hs.not_captures_size hempty hnames
    · exact fun j v hv => h.value_of_positional hfit hv
    · exact fun x v hv => h.value_of_named hfit hv
    · exact fun j p hp => h.gives_shown hscope hs.not_captures_size hempty hnames hp

/-- `FUNC f(INT: a, INT: b, INT: c = a): INT {}`, called as `f(1, b = 2)`: the three ways to a
value. -/
theorem arguments_bind_exactly_default :
    let f : Function := ⟨[⟨"INT", "a", none⟩, ⟨"INT", "b", none⟩,
      ⟨"INT", "c", some (.name ⟨1, 32⟩ "a")⟩], "INT", .mk ⟨1, 40⟩ [], Store.globalChain⟩
    let s := Store.initial.define "f" f
    let t := ((s.addScope.put 1 "a" (.int 1)).put 1 "b" (.int 2)).put 1 "c" (.int 1)
    ((machine 9 30).enter ⟨2, 1⟩ "f" f ⟨[.int 1], [("b", .int 2)]⟩).run.run s = (.ok [1, 0], t) ∧
      t.get? [1, 0] "b" = some (.int 2) ∧ t.get? [1, 0] "c" = some (.int 1) := by
  intro f s t
  have hs : s.Sound True := Store.sound_initial.define "f"
    ⟨List.cons_ne_nil _ _, fun id hid => List.mem_singleton.mp hid ▸ Nat.one_pos⟩ fun _ => trivial
  have hnames : (f.params.map Param.name).Nodup := by decide
  have hsupplies : Supplies (machine 9 30) 1 [0] ⟨[.int 1], [("b", .int 2)]⟩ 0 f.params s.addScope
      [some (.int 1), some (.int 2), some (.int 1)] t :=
    .cons (.given _) (.cons (.given _) (.cons (.default rfl) .nil))
  have hfit : Arguments.Fit ⟨[.int 1], [("b", .int 2)]⟩ f.params
      [some (.int 1), some (.int 2), some (.int 1)] :=
    hsupplies.fit_iff.mpr ⟨by decide, accepts_cons.mpr ⟨⟨_, rfl, rfl⟩,
      accepts_cons.mpr ⟨⟨_, rfl, rfl⟩, accepts_cons.mpr ⟨⟨_, rfl, rfl⟩, accepts_nil⟩⟩⟩, rfl⟩
  obtain ⟨-, hsupplied⟩ := arguments_bind_exactly ⟨2, 1⟩ "f" hs hnames
  obtain ⟨-, hentered, -⟩ := hsupplied _ _ hsupplies
  obtain ⟨hrun, hshows, -, -⟩ := hentered hfit
  have hkept : ¬ Arguments.Deletes ⟨[.int 1], [("b", .int 2)]⟩ "b" 2 (f.params.drop 2) :=
    fun hd => hd.elim (Expr.not_deletes_name _ _) id
  exact ⟨hrun, hshows.own 1 _ _ rfl rfl hkept, hshows.own 2 _ _ rfl rfl id⟩

/-- `FUNC f(INT: a, INT: b = DEL(a)): INT {}`, called as `f(1)`, is entered with its argument,
and then its default has deleted it.  `FUNC g(INT: a, INT: a): INT {}`, called as `g(a = 1)`,
is not entered: the name is taken out for one of the parameters, and missed for the other. -/
theorem arguments_lost :
    let delete : Expr := .call ⟨1, 25⟩ "DEL" [.positional (.name ⟨1, 29⟩ "a")]
    let f : Function := ⟨[⟨"INT", "a", none⟩, ⟨"INT", "b", some delete⟩], "INT", .mk ⟨1, 37⟩ [],
      Store.globalChain⟩
    let g : Function := ⟨[⟨"INT", "a", none⟩, ⟨"INT", "a", none⟩], "INT", .mk ⟨1, 29⟩ [],
      Store.globalChain⟩
    let s := (Store.initial.define "f" f).define "g" g
    let t := ((s.addScope.put 1 "a" (.int 1)).remove 1 "a").put 1 "b" (.int 0)
    let u := s.addScope.put 1 "a" (.int 1)
    (Supplies (machine 9 30) 1 [0] ⟨[.int 1], []⟩ 0 f.params s.addScope
        [some (.int 1), some (.int 0)] t ∧
      Arguments.Fit ⟨[.int 1], []⟩ f.params [some (.int 1), some (.int 0)] ∧
      ((machine 9 30).enter ⟨2, 1⟩ "f" f ⟨[.int 1], []⟩).run.run s = (.ok [1, 0], t) ∧
      t.get? [1, 0] "a" = none) ∧
    Supplies (machine 9 30) 1 [0] ⟨[], [("a", .int 1)]⟩ 0 g.params s.addScope
        [some (.int 1), some (.int 1)] (u.put 1 "a" (.int 1)) ∧
      Arguments.Fit ⟨[], [("a", .int 1)]⟩ g.params [some (.int 1), some (.int 1)] ∧
      ((machine 9 30).enter ⟨2, 1⟩ "g" g ⟨[], [("a", .int 1)]⟩).run.run s
        = (.error (.fault (.missingArgument "a" "g") ⟨2, 1⟩), u) := by
  intro delete f g s t u
  have hf : Supplies (machine 9 30) 1 [0] ⟨[.int 1], []⟩ 0 f.params s.addScope
      [some (.int 1), some (.int 0)] t :=
    .cons (.given _) (.cons (.default rfl) .nil)
  have hg : Supplies (machine 9 30) 1 [0] ⟨[], [("a", .int 1)]⟩ 0 g.params s.addScope
      [some (.int 1), some (.int 1)] (u.put 1 "a" (.int 1)) :=
    .cons (.given _) (.cons (.given _) .nil)
  have haccepts (v w : Int) (d : Option Expr) (x : String) :
      Accepts [⟨"INT", "a", none⟩, ⟨"INT", x, d⟩] [some (.int v), some (.int w)] :=
    accepts_cons.mpr ⟨⟨_, rfl, rfl⟩, accepts_cons.mpr ⟨⟨_, rfl, rfl⟩, accepts_nil⟩⟩
  exact ⟨⟨hf, hf.fit_iff.mpr ⟨by decide, haccepts 1 0 _ _, rfl⟩, rfl, rfl⟩,
    hg, hg.fit_iff.mpr ⟨by decide, haccepts 1 1 _ _, rfl⟩, rfl⟩

end SpanScript
