import AccessControl.Proofs.Program.Crowd

/-! # Two programs side by side

Two callers may have their requests answered in any order.  What is exchanged with both is one
list in which every exchange has its caller; what one of them has exchanged is the part of the
list with that caller (`part`).  So an **interleaving** of two programs is any list whose parts
are transcripts of the programs, and the outside follows the list as a whole.  Two callers are a
crowd as well, so what is known of shares is known of parts.
-/
namespace AccessControl

/-- Who makes a request. -/
inductive Caller where
  | first
  | second
  deriving DecidableEq, Repr

variable {I : Interface}

/-- The exchanges of one caller, in their order. -/
def part (caller : Caller) (t : List (Caller × Exchange I)) : List (Exchange I) :=
  (t.filter (fun e => e.1 = caller)).map Prod.snd

/-- The exchanges of both callers, in their order. -/
def both (t : List (Caller × Exchange I)) : List (Exchange I) := t.map Prod.snd

variable {caller : Caller} {e : Exchange I} {t u : List (Caller × Exchange I)}

@[simp] theorem part_nil : part caller ([] : List (Caller × Exchange I)) = [] := rfl

@[simp] theorem part_cons_self : part caller ((caller, e) :: t) = e :: part caller t :=
  share_cons_self

theorem part_cons_of_ne {other : Caller} (h : other ≠ caller) :
    part caller ((other, e) :: t) = part caller t := share_cons_of_ne h

@[simp] theorem part_first_cons_second :
    part .first ((.second, e) :: t) = part .first t := part_cons_of_ne (by decide)

@[simp] theorem part_second_cons_first :
    part .second ((.first, e) :: t) = part .second t := part_cons_of_ne (by decide)

@[simp] theorem part_append : part caller (t ++ u) = part caller t ++ part caller u :=
  share_append

theorem both_append : both (t ++ u) = both t ++ both u := List.map_append

theorem mem_part : e ∈ part caller t ↔ (caller, e) ∈ t := mem_share

/-- What is exchanged with both is exchanged with the one or the other. -/
theorem mem_both_iff : e ∈ both t ↔ e ∈ part .first t ∨ e ∈ part .second t := by
  constructor
  · intro h
    obtain ⟨caller, hcaller⟩ := mem_whole_iff.mp h
    cases caller with
    | first => exact .inl hcaller
    | second => exact .inr hcaller
  · rintro (h | h)
    · exact mem_whole_of_mem_share h
    · exact mem_whole_of_mem_share h

theorem mem_both_of_mem_part (h : e ∈ part caller t) : e ∈ both t := mem_whole_of_mem_share h

/-- **Where one caller has an exchange, the whole list has it**, between what the caller
exchanged before and after. -/
theorem exists_of_part_eq {before after : List (Exchange I)}
    (h : part caller t = before ++ e :: after) :
    ∃ before' after', t = before' ++ (caller, e) :: after' ∧ part caller before' = before ∧
      part caller after' = after := exists_of_share_eq h

/-- The first exchange of a caller comes after exchanges of the other only. -/
theorem exists_of_part_eq_cons {after : List (Exchange I)} (h : part caller t = e :: after) :
    ∃ before' after', t = before' ++ (caller, e) :: after' ∧ part caller before' = [] ∧
      part caller after' = after := by
  have hcut : part caller t = [] ++ e :: after := h
  exact exists_of_part_eq hcut

/-- What both callers keep to is kept to on the whole. -/
theorem forall_mem_both {P : Exchange I → Prop} (hfirst : ∀ e ∈ part .first t, P e)
    (hsecond : ∀ e ∈ part .second t, P e) : ∀ e ∈ both t, P e :=
  fun e he => (mem_both_iff.mp he).elim (hfirst e) (hsecond e)

/-- **An exchange cuts the whole in two**: what is followed before it, and what after. -/
theorem Outside.follows_cut {σ : Type} {O : Outside I σ} {s s' : σ}
    (h : O.Follows s (both (t ++ (caller, e) :: u)) s') :
    ∃ m m', O.Follows s (both t) m ∧ O.Answers e.request m e.answer m' ∧
      O.Follows m' (both u) s' := Outside.follows_whole_cut h

/-! ## One caller at a time -/

/-- The exchanges of one caller while the other waits. -/
def alone (caller : Caller) (t : List (Exchange I)) : List (Caller × Exchange I) :=
  t.map (caller, ·)

section Alone
variable {s : List (Exchange I)}

@[simp] theorem part_alone_self : part caller (alone caller s) = s := share_solo_self

theorem part_alone_of_ne {other : Caller} (h : other ≠ caller) :
    part caller (alone other s) = [] := share_solo_of_ne h

@[simp] theorem part_first_alone_second : part .first (alone .second s) = [] :=
  part_alone_of_ne (by decide)

@[simp] theorem part_second_alone_first : part .second (alone .first s) = [] :=
  part_alone_of_ne (by decide)

@[simp] theorem both_alone : both (alone caller s) = s := whole_solo

end Alone

/-! ## Where a list is cut -/

/-- Where the only exchange of a kind is known, so is what comes before and after it. -/
theorem eq_of_append_cons_eq {α : Type} {P : α → Prop} {x y : α} {before after left right : List α}
    (h : before ++ x :: after = left ++ y :: right) (hx : P x) (hleft : ∀ z ∈ left, ¬P z)
    (hright : ∀ z ∈ right, ¬P z) : before = left ∧ x = y ∧ after = right := by
  -- If one of the two came earlier, it would be among what surrounds the other.
  rcases List.append_eq_append_iff.mp h with ⟨v, rfl, hv⟩ | ⟨v, rfl, hv⟩
  · cases v with
    | nil =>
      obtain ⟨rfl, rfl⟩ := List.cons.inj hv
      exact ⟨(List.append_nil _).symm, rfl, rfl⟩
    | cons z v =>
      obtain ⟨rfl, -⟩ := List.cons.inj hv
      exact absurd hx (hleft x (List.mem_append_right _ List.mem_cons_self))
  · cases v with
    | nil =>
      obtain ⟨rfl, rfl⟩ := List.cons.inj hv
      exact ⟨List.append_nil _, rfl, rfl⟩
    | cons z v =>
      obtain ⟨rfl, rfl⟩ := List.cons.inj hv
      exact absurd hx (hright x (List.mem_append_right _ List.mem_cons_self))

/-- An end of a list either has a certain place of it or comes after that place. -/
theorem mem_or_of_append_cons_eq {α : Type} {x : α} {before after left right : List α}
    (h : before ++ x :: after = left ++ right) :
    x ∈ right ∨ x ∈ left ∧ ∃ u, after = u ++ right := by
  rcases List.append_eq_append_iff.mp h with ⟨u, rfl, hu⟩ | ⟨u, rfl, hu⟩
  · cases u with
    | nil =>
      left
      rw [List.nil_append] at hu
      exact hu ▸ List.mem_cons_self
    | cons y u =>
      obtain ⟨rfl, hafter⟩ := List.cons.inj hu
      exact .inr ⟨List.mem_append_right _ List.mem_cons_self, u, hafter⟩
  · left
    rw [hu]
    exact List.mem_append_right _ List.mem_cons_self

end AccessControl
