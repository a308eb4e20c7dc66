import AccessControl.Proofs.Program.Transcript

/-! # Many programs side by side

Any number of callers may have their requests answered in any order.  What is exchanged with all
of them is one list in which every exchange has its caller, and what one of them has exchanged is
its share of the list (`share`).  A caller that has ended has a transcript as its share, and one
that is still on its way has the beginning of one; so nothing need be said about how many callers
there are, or of how their requests are put in order.
-/
namespace AccessControl
variable {I : Interface} {ι : Type}

/-- The exchanges of one caller, in their order. -/
def share [DecidableEq ι] (i : ι) (t : List (ι × Exchange I)) : List (Exchange I) :=
  (t.filter (fun e => e.1 = i)).map Prod.snd

/-- The exchanges of all callers, in their order. -/
def whole (t : List (ι × Exchange I)) : List (Exchange I) := t.map Prod.snd

variable {i j : ι} {e : Exchange I} {t u : List (ι × Exchange I)}

theorem whole_append : whole (t ++ u) = whole t ++ whole u := List.map_append

theorem whole_cons : whole ((i, e) :: t) = e :: whole t := rfl

/-- Where there is an exchange on the whole, it is with some caller. -/
theorem exists_of_whole_eq {before after : List (Exchange I)}
    (h : whole t = before ++ e :: after) :
    ∃ i before' after', t = before' ++ (i, e) :: after' ∧ whole before' = before ∧
      whole after' = after := by
  obtain ⟨before', rest, rfl, hbefore, hrest⟩ := List.map_eq_append_iff.mp h
  obtain ⟨⟨i, _⟩, after', rfl, rfl, hafter⟩ := List.map_eq_cons_iff.mp hrest
  exact ⟨i, before', after', rfl, hbefore, hafter⟩

/-- **An exchange cuts the whole in two**: what is followed before it, and what after. -/
theorem Outside.follows_whole_cut {σ : Type} {O : Outside I σ} {s s' : σ}
    (h : O.Follows s (whole (t ++ (i, e) :: u)) s') :
    ∃ m m', O.Follows s (whole t) m ∧ O.Answers e.request m e.answer m' ∧
      O.Follows m' (whole u) s' := by
  rw [whole_append, whole_cons] at h
  obtain ⟨m, hbefore, hrest⟩ := Outside.follows_append_iff.mp h
  obtain ⟨m', hanswers, hafter⟩ := Outside.follows_cons_iff.mp hrest
  exact ⟨m, m', hbefore, hanswers, hafter⟩

/-- Where something is in a list that got one more at its end. -/
theorem eq_or_of_concat_eq_append_cons {α : Type} {x y : α} {before after list : List α}
    (h : list ++ [y] = before ++ x :: after) :
    (before = list ∧ x = y) ∨ ∃ rest, after = rest ++ [y] ∧ list = before ++ x :: rest := by
  rcases List.eq_nil_or_concat after with rfl | ⟨rest, last, rfl⟩
  · obtain ⟨rfl, hlast⟩ := List.append_inj' h rfl
    exact .inl ⟨rfl, (List.singleton_inj.mp hlast).symm⟩
  · rw [List.concat_eq_append] at h ⊢
    rw [← List.cons_append, ← List.append_assoc] at h
    obtain ⟨hlist, hlast⟩ := List.append_inj' h rfl
    exact .inr ⟨rest, by rw [List.singleton_inj.mp hlast], hlist⟩

/-! ## The share of one caller -/

variable [DecidableEq ι]

@[simp] theorem share_nil : share i ([] : List (ι × Exchange I)) = [] := rfl

@[simp] theorem share_cons_self : share i ((i, e) :: t) = e :: share i t := by
  rw [share, List.filter_cons_of_pos (by simp), List.map_cons, ← share]

theorem share_cons_of_ne (h : j ≠ i) : share i ((j, e) :: t) = share i t := by
  rw [share, List.filter_cons_of_neg (by simpa using h), ← share]

@[simp] theorem share_append : share i (t ++ u) = share i t ++ share i u := by
  rw [share, List.filter_append, List.map_append, ← share, ← share]

theorem mem_share : e ∈ share i t ↔ (i, e) ∈ t := by
  rw [share, List.mem_map]
  constructor
  · rintro ⟨⟨other, _⟩, hmem, rfl⟩
    obtain ⟨hmem', hother⟩ := List.mem_filter.mp hmem
    obtain rfl : other = i := of_decide_eq_true hother
    exact hmem'
  · exact fun h => ⟨_, List.mem_filter.mpr ⟨h, decide_eq_true rfl⟩, rfl⟩

/-- What is exchanged on the whole is exchanged with some caller. -/
theorem mem_whole_iff : e ∈ whole t ↔ ∃ i, e ∈ share i t := by
  rw [whole, List.mem_map]
  constructor
  · rintro ⟨⟨i, _⟩, hmem, rfl⟩
    exact ⟨i, mem_share.mpr hmem⟩
  · rintro ⟨i, h⟩
    exact ⟨(i, e), mem_share.mp h, rfl⟩

theorem mem_whole_of_mem_share (h : e ∈ share i t) : e ∈ whole t := mem_whole_iff.mpr ⟨i, h⟩

/-- **What holds of every exchange that may come next holds of all that come after some.** -/
theorem Outside.Follows.forall_later {σ : Type} {O : Outside I σ} {s s' : σ}
    {P : Exchange I → Prop} (h : O.Follows s (whole (t ++ u)) s')
    (hnext : ∀ before i e after m m', u = before ++ (i, e) :: after →
      O.Follows s (whole (t ++ before)) m → O.Answers e.request m e.answer m' → P e) :
    ∀ e ∈ whole u, P e := by
  intro e he
  obtain ⟨i, hi⟩ := mem_whole_iff.mp he
  obtain ⟨before, after, rfl⟩ := List.append_of_mem (mem_share.mp hi)
  rw [← List.append_assoc] at h
  obtain ⟨m, m', hbefore, hanswers, -⟩ := Outside.follows_whole_cut h
  exact hnext before i e after m m' rfl hbefore hanswers

/-- **Where one caller has an exchange, the whole list has it**, between what the caller
exchanged before and after. -/
theorem exists_of_share_eq {before after : List (Exchange I)}
    (h : share i t = before ++ e :: after) :
    ∃ before' after', t = before' ++ (i, e) :: after' ∧ share i before' = before ∧
      share i after' = after := by
  induction t generalizing before with
  | nil => exact absurd h.symm (by simp)
  | cons head t ih =>
    obtain ⟨j, e'⟩ := head
    by_cases hj : j = i
    · subst hj
      rw [share_cons_self] at h
      cases before with
      | nil =>
        obtain ⟨rfl, hafter⟩ := List.cons.inj h
        exact ⟨[], t, rfl, rfl, hafter⟩
      | cons first before =>
        obtain ⟨rfl, hrest⟩ := List.cons.inj h
        obtain ⟨before', after', rfl, rfl, hafter⟩ := ih hrest
        exact ⟨(j, e') :: before', after', rfl, share_cons_self, hafter⟩
    · rw [share_cons_of_ne hj] at h
      obtain ⟨before', after', rfl, rfl, hafter⟩ := ih h
      exact ⟨(j, e') :: before', after', rfl, share_cons_of_ne hj, hafter⟩

/-! ## One caller at a time -/

/-- The exchanges of one caller while the others wait. -/
def solo (i : ι) (t : List (Exchange I)) : List (ι × Exchange I) := t.map (i, ·)

section Solo
variable {s : List (Exchange I)}

omit [DecidableEq ι] in
@[simp] theorem whole_solo : whole (solo i s) = s := by
  rw [whole, solo, List.map_map]
  exact List.map_id s

@[simp] theorem share_solo_self : share i (solo i s) = s := by
  induction s with
  | nil => rfl
  | cons e s ih => rw [solo, List.map_cons, share_cons_self, ← solo, ih]

theorem share_solo_of_ne (h : j ≠ i) : share i (solo j s) = [] := by
  induction s with
  | nil => rfl
  | cons e s ih => rw [solo, List.map_cons, share_cons_of_ne h, ← solo, ih]

end Solo
end AccessControl
