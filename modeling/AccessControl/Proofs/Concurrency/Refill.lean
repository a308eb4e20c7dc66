import AccessControl.Proofs.Program.Crowd
import AccessControl.Proofs.World.Exact

/-! # Refills that come late

Whoever looks something up and then caches it may be overtaken: in between, somebody else changes
what was looked up and removes the item, and what is cached afterwards is wrong until it expires.
A refill is late if the other has removed the item for the last time before it (`LateRefill`).

**This is the only way in which a wrong value comes to stay** (`Tended.origin`).  If everybody
caches only what was just looked up, if every change is followed by a removal, and if no refill is
late, then a value that is held after any interleaving of any number of callers was made from what
was looked up after the last change; or it was held from the start, and nothing has changed.

What counts as a change is a parameter, so that the same holds of permissions, stamps and tokens.
-/
namespace AccessControl.Concurrency
open World Outside Program
variable {mayFail : Backend.Request → Bool} {catalog : Catalog} {key : CacheKey} {value : String}
  {w w' : World}

/-- A value that is held was held before and not removed, or stands for nothing, or was cached and
not removed since. -/
theorem held_of_follows (hremove : mayFail (.cacheDelete key.text) = false)
    {t : List (Exchange Backend)} (h : (unreliable mayFail).Follows w t w')
    (hheld : w'.Holds key value) :
    key.Spoilt value ∨
      (w.Holds key value ∧ ∀ e ∈ t, e.request ≠ .cacheDelete key.text) ∨
      ∃ before seconds a after, t = before ++ ⟨.cacheSet key.text value seconds, a⟩ :: after ∧
        ∀ e ∈ after, e.request ≠ .cacheDelete key.text := by
  induction h with
  | nil => exact .inr (.inl ⟨hheld, fun _ he => absurd he List.not_mem_nil⟩)
  | @cons w m w' e t h _ ih =>
    rcases ih hheld with hspoilt | ⟨hm, hrest⟩ | ⟨before, seconds, a, after, rfl, hafter⟩
    · exact .inl hspoilt
    · -- It is held after the first exchange, and not removed by the others.
      obtain ⟨r, a⟩ := e
      rcases holds_of_answers h hm with hw | hspoilt | ⟨seconds, rfl⟩
      · have hfirst : r ≠ .cacheDelete key.text := by
          rintro rfl
          exact (remove_answers hremove h).2 value hm
        exact .inr (.inl ⟨hw, List.forall_mem_cons.mpr ⟨hfirst, hrest⟩⟩)
      · exact .inl hspoilt
      · exact .inr (.inr ⟨[], seconds, a, t, rfl, hrest⟩)
    · exact .inr (.inr ⟨e :: before, seconds, a, after, rfl, hafter⟩)

variable {ι : Type} [DecidableEq ι] {changes : ι → Exchange Backend → Prop}
  {t u : List (ι × Exchange Backend)}

/-- **A refill comes late**: a caller has looked something up, another has changed it since and has
removed the item for the last time, and only now the caller caches what it has looked up. -/
def LateRefill (changes : ι → Exchange Backend → Prop) (key : CacheKey)
    (t : List (ι × Exchange Backend)) : Prop :=
  ∃ (i j : ι) (look change : Exchange Backend) (value : String) (seconds : UInt32)
    (a : Except Failure Unit) (before between meanwhile after : List (ι × Exchange Backend)),
    t = before ++ (i, look) :: between ++ (j, change) :: meanwhile ++
        (i, ⟨.cacheSet key.text value seconds, a⟩) :: after ∧
      i ≠ j ∧ key.Origin look.request ∧ changes j change ∧
      -- What is cached in the end is what was looked up in the beginning.
      (∀ e ∈ share i (between ++ meanwhile), ¬key.Origin e.request) ∧
      ∀ e ∈ share j after, e.request ≠ .cacheDelete key.text

/-- **An item is tended to**: whoever caches it has just made the value, whoever changes its data
removes it afterwards, and no refill is late. -/
structure Tended (catalog : Catalog) (changes : ι → Exchange Backend → Prop) (key : CacheKey)
    (t : List (ι × Exchange Backend)) : Prop where
  filled : ∀ i before value seconds a after,
    share i t = before ++ ⟨.cacheSet key.text value seconds, a⟩ :: after →
    ∃ rest look more, before = rest ++ look :: more ∧ Derived catalog key look more value
  writes : ∀ j e, changes j e → e.request.writes = true
  tidied : ∀ j before change after, share j t = before ++ change :: after → changes j change →
    ∃ e ∈ after, e.request = .cacheDelete key.text
  prompt : ¬LateRefill changes key t

/-- Where a value comes from that is held after an interleaving. -/
inductive Origin (catalog : Catalog) (changes : ι → Exchange Backend → Prop) (key : CacheKey)
    (value : String) (w : World) (t : List (ι × Exchange Backend)) : Prop where
  /-- It stands for nothing. -/
  | spoilt (h : key.Spoilt value)
  /-- It was held from the start, and nothing has changed. -/
  | kept (hheld : w.Holds key value) (hunchanged : ∀ j, ∀ e ∈ share j t, ¬changes j e)
    (hunremoved : ∀ e ∈ whole t, e.request ≠ .cacheDelete key.text)
  /-- It was made from what a caller has looked up, and nothing has changed since. -/
  | made (i : ι) (before after : List (ι × Exchange Backend)) (look : Exchange Backend)
    (more : List (Exchange Backend)) (hcut : t = before ++ (i, look) :: after)
    (hderived : Derived catalog key look more value) (hmore : ∀ e ∈ more, e ∈ share i after)
    (hunchanged : ∀ j, ∀ e ∈ share j after, ¬changes j e)

/-- After the last removal of an item nobody has changed its data. -/
theorem Tended.unchanged (h : Tended catalog changes key t) (hcut : t = u ++ v)
    (hunremoved : ∀ e ∈ whole v, e.request ≠ .cacheDelete key.text) :
    ∀ j, ∀ e ∈ share j v, ¬changes j e := by
  intro j e he hchange
  obtain ⟨before, after, heq⟩ := List.append_of_mem he
  have hshare : share j t = share j u ++ before ++ e :: after := by
    rw [hcut, share_append, heq, List.append_assoc]
  obtain ⟨e', he', hremove⟩ := h.tidied j _ e after hshare hchange
  have hmem : e' ∈ share j v := by
    rw [heq]
    exact List.mem_append_right _ (List.mem_cons_of_mem _ he')
  exact hunremoved e' (mem_whole_of_mem_share hmem) hremove

/-- **A value that is held was made from what was looked up after the last change.** -/
theorem Tended.origin (h : Tended catalog changes key t)
    (hremove : mayFail (.cacheDelete key.text) = false)
    (hf : (unreliable mayFail).Follows w (whole t) w') (hheld : w'.Holds key value) :
    Origin catalog changes key value w t := by
  rcases held_of_follows hremove hf hheld with
    hspoilt | ⟨hw, hunremoved⟩ | ⟨_, seconds, a, _, hwhole, hunremoved⟩
  · exact .spoilt hspoilt
  · exact .kept hw (h.unchanged (u := []) rfl hunremoved) hunremoved
  · obtain ⟨i, fills, after, rfl, rfl, rfl⟩ := exists_of_whole_eq hwhole
    -- The value was made by the caller that has cached it, from a look at some time before.
    have hshare : share i (fills ++ (i, ⟨.cacheSet key.text value seconds, a⟩) :: after) =
        share i fills ++ ⟨.cacheSet key.text value seconds, a⟩ :: share i after := by
      rw [share_append, share_cons_self]
    obtain ⟨rest, look, more, hmade, hderived⟩ := h.filled i _ _ _ _ _ hshare
    obtain ⟨before, between, rfl, -, rfl⟩ := exists_of_share_eq hmade
    refine .made i before (between ++ (i, ⟨.cacheSet key.text value seconds, a⟩) :: after) look _
      (List.append_assoc ..) hderived (fun e he => ?_) fun j e he hchange => ?_
    · rw [share_append]
      exact List.mem_append_left _ he
    · -- A change since the look has come before the refill, or after it.
      rw [share_append] at he
      rcases List.mem_append.mp he with hbetween | hsince
      · have hij : i ≠ j := by
          rintro rfl
          have hreads := (hderived.of_mem_more e hbetween).1
          exact Bool.false_ne_true (hreads.symm.trans (h.writes i e hchange))
        obtain ⟨_, _, heq⟩ := List.append_of_mem hbetween
        obtain ⟨between, meanwhile, rfl, -, -⟩ := exists_of_share_eq heq
        refine h.prompt ⟨i, j, look, e, value, seconds, a, before, between, meanwhile, after, ?_,
          hij, hderived.origin, hchange, fun e' he' => ?_, fun e' he' => ?_⟩
        · simp only [List.append_assoc, List.cons_append]
        · refine (hderived.of_mem_more e' ?_).2
          rwa [share_append, share_cons_of_ne hij.symm, ← share_append]
        · exact hunremoved e' (mem_whole_of_mem_share he')
      · rcases List.mem_cons.mp (mem_share.mp hsince) with heq | hafter
        · -- The refill itself changes nothing.
          obtain ⟨rfl, rfl⟩ := Prod.mk.inj heq
          exact Bool.false_ne_true (h.writes _ _ hchange)
        · refine h.unchanged (u := before ++ (i, look) :: between ++
            [(i, ⟨.cacheSet key.text value seconds, a⟩)]) ?_ hunremoved j e (mem_share.mpr hafter)
            hchange
          simp only [List.append_assoc, List.cons_append, List.nil_append]

/-! ## Items about permissions -/

/-- **Callers that keep to the order tend to every item**, as long as no refill is late. -/
theorem tended_of_orderly (h : ∀ i, Orderly catalog (share i t))
    (hprompt : ¬LateRefill (fun _ e => Unsettles key e) key t) :
    Tended catalog (fun _ e => Unsettles key e) key t where
  filled i before value seconds a after heq := (h i).filled before after key value seconds a heq
  writes _ _ hchange := hchange.writes
  tidied j before change after heq hchange :=
    ((h j).tidied before after key change heq hchange).resolve_left id
  prompt := hprompt

/-- A refill that comes late has done so, whatever follows from the others. -/
theorem LateRefill.append (h : LateRefill changes key t)
    (hu : ∀ j e, changes j e → share j u = []) : LateRefill changes key (t ++ u) := by
  obtain ⟨i, j, look, change, value, seconds, a, before, between, meanwhile, after, rfl, hij,
    horigin, hchange, hlast, hunremoved⟩ := h
  refine ⟨i, j, look, change, value, seconds, a, before, between, meanwhile, after ++ u, ?_, hij,
    horigin, hchange, hlast, ?_⟩
  · simp only [List.append_assoc, List.cons_append]
  · rwa [share_append, hu j change hchange, List.append_nil]

/-- As long as nothing changes there is nothing that could come late. -/
theorem not_lateRefill_of_forall (h : ∀ i, ∀ e ∈ share i t, ¬changes i e) :
    ¬LateRefill changes key t := by
  rintro ⟨_, j, _, change, _, _, _, before, between, meanwhile, after, rfl, -, -, hchange, -⟩
  refine h j change (mem_share.mpr ?_) hchange
  simp

/-- **No refill is late that comes before the last removal**, if nobody else has changed
anything. -/
theorem not_lateRefill_of_removal {j : ι} {a : Except Failure Unit}
    {before after : List (ι × Exchange Backend)}
    (hcut : t = before ++ (j, ⟨.cacheDelete key.text, a⟩) :: after)
    (hwriter : ∀ i, ∀ e ∈ share i t, changes i e → i = j)
    (hafter : ∀ e ∈ whole after, ∀ value seconds, e.request ≠ .cacheSet key.text value seconds) :
    ¬LateRefill changes key t := by
  rintro ⟨i, k, look, change, value, seconds, a', earlier, between, meanwhile, later, hlate, -, -,
    hchange, -, hunremoved⟩
  obtain rfl : k = j := by
    refine hwriter k change (mem_share.mpr ?_) hchange
    simp [hlate]
  rcases List.append_eq_append_iff.mp (hcut.symm.trans hlate) with
    ⟨rest, -, heq⟩ | ⟨rest, -, heq⟩
  · -- The refill would come after the removal.
    cases rest with
    | nil => cases heq
    | cons _ rest =>
      obtain ⟨-, rfl⟩ := List.cons.inj heq
      refine hafter ⟨.cacheSet key.text value seconds, a'⟩
        (mem_whole_of_mem_share (i := i) (mem_share.mpr ?_)) value seconds rfl
      exact List.mem_append_right _ List.mem_cons_self
  · -- The removal comes after the refill.
    cases rest with
    | nil => cases heq
    | cons _ rest =>
      obtain ⟨-, rfl⟩ := List.cons.inj heq
      refine hunremoved ⟨.cacheDelete key.text, a⟩ (mem_share.mpr ?_) rfl
      exact List.mem_append_right _ List.mem_cons_self

/-- Callers that are still on their way tend to every item, as long as nothing changes. -/
theorem tended_of_settled (h : ∀ i, OrderlyBut catalog (fun _ => True) (share i t))
    (hsettled : ∀ i, ∀ e ∈ share i t, ¬Unsettles key e) :
    Tended catalog (fun _ e => Unsettles key e) key t where
  filled i before value seconds a after heq := (h i).filled before after key value seconds a heq
  writes _ _ hchange := hchange.writes
  tidied j before change after heq hchange :=
    absurd hchange (hsettled j change (by rw [heq]; simp))
  prompt := not_lateRefill_of_forall hsettled

/-- **A value that is held is exact, or it was held from the start** and its data has not changed
since. -/
theorem Tended.exact_or_kept (h : Tended catalog (fun _ e => Unsettles key e) key t)
    (hremove : mayFail (.cacheDelete key.text) = false)
    (hf : (unreliable mayFail).Follows w (whole t) w') (hheld : w'.Holds key value) :
    Cached.Exact w'.store catalog key value ∨
      w.Holds key value ∧ w.store.SameData w'.store key := by
  rcases h.origin hremove hf hheld with
    hspoilt | ⟨hw, hunchanged, -⟩ | ⟨i, before, after, look, more, rfl, hderived, hmore, hunchanged⟩
  · exact .inl (hspoilt.exact w'.store catalog)
  · refine .inr ⟨hw, sameData_of_follows hf fun e he => ?_⟩
    obtain ⟨j, hj⟩ := mem_whole_iff.mp he
    exact hunchanged j e hj
  · -- What the value was made from was read when the data was already as it is in the end.
    obtain ⟨m, m', -, hlook, hafter⟩ := follows_whole_cut hf
    have hsettled : ∀ e ∈ look :: whole after, ¬Unsettles key e := by
      refine List.forall_mem_cons.mpr ⟨hderived.not_unsettles, fun e he => ?_⟩
      obtain ⟨j, hj⟩ := mem_whole_iff.mp he
      exact hunchanged j e hj
    have hreads := readsSame_of_mem (.cons hlook hafter) hsettled
    left
    apply hderived.exact (hreads look List.mem_cons_self)
    exact fun e he => hreads e (List.mem_cons_of_mem _ (mem_whole_of_mem_share (hmore e he)))

end AccessControl.Concurrency
