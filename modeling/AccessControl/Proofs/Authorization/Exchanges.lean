import AccessControl.Authorization.Decision
import AccessControl.Proofs.Json.Spelling
import AccessControl.Proofs.Program.Service
import AccessControl.Proofs.World.Reading

/-! # What resolutions exchange about a role

A resolution asks for a role, then for its rows, and then caches what both come to; nothing is
asked in between.  So whatever a resolution exchanges consists of such blocks, as far as one
role is concerned, and of requests that do not concern the role (`Resolving`).

The blocks tell where a resolution can be overtaken: only between finding the role and reading
its rows (`Resolving.split`).
-/
namespace AccessControl.Authorization
open Program World

/-- Requests of resolutions and decisions that do not concern a role. -/
def Aside (role : RoleId) : Backend.Request → Prop
  | .findRole other => other ≠ role
  | .roleGrants other => other ≠ role
  | .userGrants _ => True
  | .userRoles _ => True
  | .cacheGet _ => True
  | .cacheDelete _ => True
  | .cacheSet key _ _ => key ≠ (CacheKey.rolePermissions role).text
  | _ => False

/-- The item that is cached for a role that was found with these rows. -/
def itemOf (d : Deployment) (role : RoleId) (record : Role) (rows : List Grant) :
    Cached.RolePermissions :=
  ⟨role, record.effective rows d.catalog⟩

/-- The request that caches the permissions of a role that was found with these rows. -/
def cachingOf (d : Deployment) (role : RoleId) (record : Role) (rows : List Grant) :
    Backend.Request :=
  .cacheSet (CacheKey.rolePermissions role).text (Json.write (itemOf d role record rows))
    d.cacheSeconds

/-- **What resolutions exchange about a role.** -/
inductive Resolving (d : Deployment) (role : RoleId) : List (Exchange Backend) → Prop where
  /-- Nothing. -/
  | nil : Resolving d role []
  /-- Something that does not concern the role. -/
  | aside {e : Exchange Backend} {t : List (Exchange Backend)} (h : Aside role e.request)
      (ht : Resolving d role t) : Resolving d role (e :: t)
  /-- The role is not found, or the finding fails. -/
  | missed {found : Except Failure (Option Role)} {t : List (Exchange Backend)}
      (h : ∀ record, found ≠ .ok (some record)) (ht : Resolving d role t) :
      Resolving d role (⟨.findRole role, found⟩ :: t)
  /-- The role is found, but its rows cannot be read. -/
  | unread {record : Role} {failure : Failure} {t : List (Exchange Backend)}
      (ht : Resolving d role t) :
      Resolving d role
        (⟨.findRole role, .ok (some record)⟩ :: ⟨.roleGrants role, .error failure⟩ :: t)
  /-- The role is found, its rows are read, and what they come to is cached. -/
  | loaded {record : Role} {rows : List Grant} {cached : Except Failure Unit}
      {t : List (Exchange Backend)} (ht : Resolving d role t) :
      Resolving d role (⟨.findRole role, .ok (some record)⟩ :: ⟨.roleGrants role, .ok rows⟩ ::
        ⟨cachingOf d role record rows, cached⟩ :: t)

variable {d : Deployment} {role : RoleId} {t u : List (Exchange Backend)}

theorem Resolving.append (h : Resolving d role t) (hu : Resolving d role u) :
    Resolving d role (t ++ u) := by
  induction h with
  | nil => exact hu
  | aside h _ ih => exact .aside h ih
  | missed h _ ih => exact .missed h ih
  | unread _ ih => exact .unread ih
  | loaded _ ih => exact .loaded ih

/-- The permissions of a role were computed in the course of exchanges, and cached. -/
def Computes (d : Deployment) (role : RoleId) (held : NameSet) (t : List (Exchange Backend)) :
    Prop :=
  ∃ e ∈ t, e.request = .cacheSet (CacheKey.rolePermissions role).text
    (Json.write (Cached.RolePermissions.mk role held)) d.cacheSeconds

/-- A resolution is overtaken: the role was found, and the next thing that is read are its
rows. -/
def Torn (role : RoleId) (record : Role) (rows : List Grant) (t u : List (Exchange Backend)) :
    Prop :=
  (∃ before, t = before ++ [⟨.findRole role, .ok (some record)⟩]) ∧
    ∃ after, u = ⟨.roleGrants role, .ok rows⟩ :: after

/-- The role was found and its rows were read in the course of the same exchanges. -/
def ReadIn (role : RoleId) (record : Role) (rows : List Grant) (t : List (Exchange Backend)) :
    Prop :=
  ⟨.findRole role, .ok (some record)⟩ ∈ t ∧ ⟨.roleGrants role, .ok rows⟩ ∈ t

theorem Aside.harmless {r : Backend.Request} (h : Aside role r) : Harmless r := by
  cases r <;> first | exact False.elim h | exact ⟨rfl, nofun⟩

/-- A resolution changes nothing but the cache. -/
theorem Resolving.harmless (h : Resolving d role t) : ∀ e ∈ t, Harmless e.request := by
  induction h with
  | nil => exact fun _ he => absurd he List.not_mem_nil
  | aside h _ ih => exact List.forall_mem_cons.mpr ⟨h.harmless, ih⟩
  | missed _ _ ih => exact List.forall_mem_cons.mpr ⟨⟨rfl, nofun⟩, ih⟩
  | unread _ ih =>
    exact List.forall_mem_cons.mpr ⟨⟨rfl, nofun⟩,
      List.forall_mem_cons.mpr ⟨⟨rfl, nofun⟩, ih⟩⟩
  | loaded _ ih =>
    exact List.forall_mem_cons.mpr ⟨⟨rfl, nofun⟩, List.forall_mem_cons.mpr ⟨⟨rfl, nofun⟩,
      List.forall_mem_cons.mpr ⟨⟨rfl, nofun⟩, ih⟩⟩⟩

/-- A resolution writes nothing. -/
theorem Resolving.writes_eq_false (h : Resolving d role t) :
    ∀ e ∈ t, e.request.writes = false :=
  fun e he => (h.harmless e he).writes

/-- **What is cached for a role has just been read**, the role first and then its rows. -/
theorem Resolving.before_caching {before after : List (Exchange Backend)} {e : Exchange Backend}
    (h : Resolving d role (before ++ e :: after)) {value : String} {seconds : UInt32}
    (hset : e.request = .cacheSet (CacheKey.rolePermissions role).text value seconds) :
    ∃ t record rows, e.request = cachingOf d role record rows ∧
      before = t ++ [⟨.findRole role, .ok (some record)⟩, ⟨.roleGrants role, .ok rows⟩] := by
  -- The blocks are gone through from the front, until the one comes that caches.
  generalize hs : before ++ e :: after = s at h
  induction h generalizing before with
  | nil => exact absurd hs (by simp)
  | aside haside _ ih =>
    rcases before with _ | ⟨x, before⟩ <;>
      simp only [List.nil_append, List.cons_append, List.cons.injEq] at hs
    · obtain ⟨rfl, -⟩ := hs
      rw [hset] at haside
      exact absurd rfl haside
    · obtain ⟨rfl, hs⟩ := hs
      obtain ⟨t, record, rows, hcaching, rfl⟩ := ih hs
      exact ⟨_ :: t, record, rows, hcaching, rfl⟩
  | missed _ _ ih =>
    rcases before with _ | ⟨x, before⟩ <;>
      simp only [List.nil_append, List.cons_append, List.cons.injEq] at hs
    · obtain ⟨rfl, -⟩ := hs
      cases hset
    · obtain ⟨rfl, hs⟩ := hs
      obtain ⟨t, record, rows, hcaching, rfl⟩ := ih hs
      exact ⟨_ :: t, record, rows, hcaching, rfl⟩
  | unread _ ih =>
    rcases before with _ | ⟨x, _ | ⟨y, before⟩⟩ <;>
      simp only [List.nil_append, List.cons_append, List.cons.injEq] at hs
    · obtain ⟨rfl, -⟩ := hs
      cases hset
    · obtain ⟨-, rfl, -⟩ := hs
      cases hset
    · obtain ⟨rfl, rfl, hs⟩ := hs
      obtain ⟨t, record, rows, hcaching, rfl⟩ := ih hs
      exact ⟨_ :: _ :: t, record, rows, hcaching, rfl⟩
  | @loaded record rows _ _ _ ih =>
    rcases before with _ | ⟨x, _ | ⟨y, _ | ⟨z, before⟩⟩⟩ <;>
      simp only [List.nil_append, List.cons_append, List.cons.injEq] at hs
    · obtain ⟨rfl, -⟩ := hs
      cases hset
    · obtain ⟨-, rfl, -⟩ := hs
      cases hset
    · obtain ⟨rfl, rfl, rfl, -⟩ := hs
      exact ⟨[], record, rows, rfl, rfl⟩
    · obtain ⟨rfl, rfl, rfl, hs⟩ := hs
      obtain ⟨t, record, rows, hcaching, rfl⟩ := ih hs
      exact ⟨_ :: _ :: _ :: t, record, rows, hcaching, rfl⟩

/-- **Rows that are read just after their role was found are cached next.** -/
theorem Resolving.after_reading {before after : List (Exchange Backend)} {record : Role}
    {rows : List Grant}
    (h : Resolving d role (before ++ ⟨.findRole role, .ok (some record)⟩ ::
      ⟨.roleGrants role, .ok rows⟩ :: after)) :
    ∃ e ∈ after, e.request = cachingOf d role record rows := by
  -- A role that is found is the beginning of a block, and its rows are within the same block.
  generalize hs : before ++ ⟨.findRole role, .ok (some record)⟩ ::
    ⟨.roleGrants role, .ok rows⟩ :: after = s at h
  induction h generalizing before with
  | nil => exact absurd hs (by simp)
  | aside haside _ ih =>
    rcases before with _ | ⟨x, before⟩
    · obtain ⟨rfl, -⟩ := List.cons.inj hs
      exact absurd rfl haside
    · exact ih (List.cons.inj hs).2
  | missed hfound _ ih =>
    rcases before with _ | ⟨x, before⟩
    · obtain ⟨heq, -⟩ := List.cons.inj hs
      cases heq
      exact absurd rfl (hfound record)
    · exact ih (List.cons.inj hs).2
  | unread _ ih =>
    rcases before with _ | ⟨x, _ | ⟨y, before⟩⟩
    · exact nomatch (List.cons.inj (List.cons.inj hs).2).1
    · exact nomatch (List.cons.inj (List.cons.inj hs).2).1
    · exact ih (List.cons.inj (List.cons.inj hs).2).2
  | loaded _ ih =>
    rcases before with _ | ⟨x, _ | ⟨y, _ | ⟨z, before⟩⟩⟩
    · cases hs
      exact ⟨_, List.mem_cons_self, rfl⟩
    · exact nomatch (List.cons.inj (List.cons.inj hs).2).1
    · exact nomatch (List.cons.inj (List.cons.inj (List.cons.inj hs).2).2).1
    · exact ih (List.cons.inj (List.cons.inj (List.cons.inj hs).2).2).2

/-- **Cut in two, a resolution has what it caches from the one part or from the other, or it is
torn by the cut.** -/
theorem Resolving.split (h : Resolving d role (t ++ u)) {e : Exchange Backend} {value : String}
    {seconds : UInt32} (he : e ∈ t ++ u)
    (hset : e.request = .cacheSet (CacheKey.rolePermissions role).text value seconds) :
    ∃ record rows, e.request = cachingOf d role record rows ∧
      (ReadIn role record rows t ∨ ReadIn role record rows u ∨ Torn role record rows t u) := by
  obtain ⟨before, after, heq⟩ := List.append_of_mem he
  rw [heq] at h
  obtain ⟨t', record, rows, hcaching, rfl⟩ := h.before_caching hset
  refine ⟨record, rows, hcaching, ?_⟩
  -- The two readings are next to each other: the cut is before both, between them or after both.
  rcases List.append_eq_append_iff.mp heq with ⟨v, hv, rfl⟩ | ⟨v, rfl, -⟩
  · rcases List.append_eq_append_iff.mp hv with ⟨v', rfl, hv'⟩ | ⟨v', rfl, rfl⟩
    · rcases v' with _ | ⟨x, _ | ⟨y, v'⟩⟩ <;>
        simp only [List.nil_append, List.cons_append, List.cons.injEq] at hv'
      · exact .inr (.inl ⟨by simp [← hv'], by simp [← hv']⟩)
      · obtain ⟨rfl, rfl⟩ := hv'
        exact .inr (.inr ⟨⟨t', rfl⟩, _, rfl⟩)
      · obtain ⟨rfl, rfl, -⟩ := hv'
        exact .inl ⟨by simp, by simp⟩
    · exact .inr (.inl ⟨by simp, by simp⟩)
  · exact .inl ⟨by simp, by simp⟩

/-! ## Which programs resolve -/

/-- Whatever a program exchanges, it is what resolutions exchange about a role. -/
def Resolves {α : Type} (d : Deployment) (role : RoleId) (p : Program Backend α) : Prop :=
  ∀ t a, p.Transcript t a → Resolving d role t

section Resolves
variable {α β : Type}

theorem resolves_of_asks {p : Program Backend α} (hp : p.Asks (Aside role)) :
    Resolves d role p := by
  intro t a ht
  have haside := hp t a ht
  clear ht
  induction t with
  | nil => exact .nil
  | cons e t ih =>
    obtain ⟨he, hrest⟩ := List.forall_mem_cons.mp haside
    exact .aside he (ih hrest)

theorem Resolves.bind {p : Program Backend α} {f : α → Program Backend β}
    (hp : Resolves d role p) (hf : ∀ a, Resolves d role (f a)) : Resolves d role (p >>= f) := by
  intro t b ht
  obtain ⟨t₁, a, t₂, rfl, h₁, h₂⟩ := transcript_bind_iff.mp ht
  exact (hp t₁ a h₁).append (hf a t₂ b h₂)

theorem Resolves.run_bind {x : Service α} {f : α → Service β} (hx : Resolves d role x.run)
    (hf : ∀ a, Resolves d role (f a).run) : Resolves d role (x >>= f).run := by
  rw [ExceptT.run_bind]
  refine hx.bind fun r => ?_
  cases r with
  | ok a => exact hf a
  | error failure => exact resolves_of_asks (asks_done _)

theorem Resolves.run_lift {p : Program Backend α} (hp : Resolves d role p) :
    Resolves d role (liftM p : Service α).run := by
  show Resolves d role (p >>= fun a => done (Except.ok a))
  exact hp.bind fun a => resolves_of_asks (asks_done _)

theorem resolves_run_pure (a : α) : Resolves d role (pure a : Service α).run :=
  resolves_of_asks (asks_run_pure a)

theorem resolves_run_throw (failure : Failure) : Resolves d role (throw failure : Service α).run :=
  resolves_of_asks (asks_run_throw failure)

theorem resolves_run_check (check : Except Failure α) :
    Resolves d role (liftM check : Service α).run := resolves_of_asks (asks_run_check check)

theorem resolves_remove (key : CacheKey) : Resolves d role (Cached.remove key) :=
  resolves_of_asks ((asks_backend (.cacheDelete key.text) trivial).bind fun _ => asks_done _)

theorem resolves_read [Json.Form α] (key : CacheKey) : Resolves d role (Cached.read α key) := by
  refine Resolves.bind (resolves_of_asks (asks_backend (.cacheGet key.text) trivial))
    fun found => ?_
  split
  · split
    · exact resolves_of_asks (asks_done _)
    · exact (resolves_remove key).bind fun _ => resolves_of_asks (asks_done _)
  · exact resolves_of_asks (asks_done _)

/-- Caching an item of another key does not concern a role. -/
theorem resolves_store [Cached.Item α] {seconds : UInt32} {item : α}
    (h : Cached.Item.key item ≠ .rolePermissions role) :
    Resolves d role (Cached.store seconds item) := by
  have haside : Aside role (.cacheSet (Cached.Item.key item).text (Json.write item) seconds) :=
    fun heq => h (CacheKey.text_injective heq)
  exact resolves_of_asks ((asks_backend _ haside).bind fun _ => asks_done _)

/-! ## Resolutions -/

/-- Loading a role is one block about the role. -/
theorem resolves_loadRole_self : Resolves d role (loadRole d role).run := by
  intro t r ht
  rcases transcript_run_bind_iff.mp ht with ⟨_, found, rest, rfl, hfind, hload⟩ | ⟨_, rfl, hfind⟩
  case inr =>
    obtain rfl := transcript_request_iff.mp hfind
    exact .missed (by simp) .nil
  obtain rfl := transcript_request_iff.mp hfind
  cases found with
  | none =>
    have hnone : Resolves d role (do
        Cached.remove (.rolePermissions role)
        return none : Service (Option NameSet)).run :=
      (resolves_remove _).run_lift.run_bind fun _ => resolves_run_pure _
    exact .missed (by simp) (hnone _ _ hload)
  | some record =>
    rcases transcript_run_bind_iff.mp hload with
      ⟨_, rows, cache, rfl, hrows, hcache⟩ | ⟨_, rfl, hrows⟩
    case inr =>
      obtain rfl := transcript_request_iff.mp hrows
      exact .unread .nil
    obtain rfl := transcript_request_iff.mp hrows
    obtain ⟨cached, rest, rfl, hrest⟩ := transcript_call_iff.mp hcache
    obtain ⟨rfl, -⟩ := transcript_done_iff.mp hrest
    exact .loaded .nil

/-- Loading another role does not concern a role. -/
theorem resolves_loadRole_of_ne {other : RoleId} (h : other ≠ role) :
    Resolves d role (loadRole d other).run := by
  refine Resolves.run_bind (resolves_of_asks (asks_backend (.findRole other) h)) fun found => ?_
  cases found with
  | none => exact (resolves_remove _).run_lift.run_bind fun _ => resolves_run_pure _
  | some record =>
    refine Resolves.run_bind (resolves_of_asks (asks_backend (.roleGrants other) h)) fun rows => ?_
    refine Resolves.run_bind (resolves_store fun heq => ?_).run_lift fun _ => resolves_run_pure _
    exact h (CacheKey.rolePermissions.inj heq)

theorem resolves_loadRole (other : RoleId) : Resolves d role (loadRole d other).run := by
  by_cases h : other = role
  · exact h ▸ resolves_loadRole_self
  · exact resolves_loadRole_of_ne h

theorem resolves_loadRoles (roles : List RoleId) : Resolves d role (loadRoles d roles).run := by
  induction roles with
  | nil => exact resolves_run_pure _
  | cons other roles ih =>
    exact Resolves.run_bind (resolves_loadRole other) fun _ =>
      ih.run_bind fun _ => resolves_run_pure _

theorem resolves_resolveRole (other : RoleId) : Resolves d role (resolveRole d other).run := by
  refine Resolves.run_bind (resolves_loadRole other) fun held? => ?_
  split
  · exact resolves_run_pure _
  · exact resolves_run_throw _

theorem resolves_resolveUser (user : UserId) : Resolves d role (resolveUser d user).run := by
  refine Resolves.run_bind (resolves_of_asks (asks_backend (.userRoles user) trivial))
    fun roles => ?_
  refine Resolves.run_bind (resolves_store (by exact nofun)).run_lift fun _ => ?_
  refine Resolves.run_bind (resolves_of_asks (asks_backend (.userGrants user) trivial))
    fun rows => ?_
  refine Resolves.run_bind (resolves_store (by exact nofun)).run_lift fun _ => ?_
  exact Resolves.run_bind (resolves_loadRoles roles) fun _ => resolves_run_pure _

/-! ## Decisions -/

theorem resolves_cachedRoles (roles : List RoleId) : Resolves d role (cachedRoles roles) := by
  induction roles with
  | nil => exact resolves_of_asks (asks_done _)
  | cons other roles ih =>
    refine (resolves_read _).bind fun item => ?_
    split
    · exact resolves_of_asks (asks_done _)
    · refine ih.bind fun rest => ?_
      split <;> exact resolves_of_asks (asks_done _)

theorem resolves_cachedDecision (user : UserId) (name : String) :
    Resolves d role (cachedDecision user name) := by
  refine (resolves_read _).bind fun roles => ?_
  split
  · exact resolves_of_asks (asks_done _)
  · refine (resolves_read _).bind fun item => ?_
    split
    · exact resolves_of_asks (asks_done _)
    · refine (resolves_cachedRoles _).bind fun held => ?_
      split <;> exact resolves_of_asks (asks_done _)

theorem resolves_isGranted (user : UserId) (name : String) :
    Resolves d role (isGranted d user name).run := by
  unfold isGranted
  split
  · refine (resolves_cachedDecision user name).run_lift.run_bind fun decision => ?_
    split
    · exact resolves_run_pure _
    · exact (resolves_resolveUser user).run_bind fun _ => resolves_run_pure _
  · exact resolves_run_pure _

theorem resolves_hasPermission (user : UserId) (name : String) :
    Resolves d role (hasPermission d user name).run :=
  (resolves_run_check _).run_bind fun _ => resolves_isGranted user name

theorem resolves_requirePermission (user : UserId) (name : String) :
    Resolves d role (requirePermission d user name).run :=
  (resolves_hasPermission user name).run_bind fun _ => resolves_run_check _

theorem resolves_listGranted (user : UserId) : Resolves d role (listGranted d user).run :=
  (resolves_resolveUser user).run_bind fun _ => resolves_run_pure _

/-- What resolves changes nothing but the cache. -/
theorem Resolves.asks_harmless {p : Program Backend α} (h : Resolves d role p) :
    p.Asks Harmless :=
  fun t a ht => (h t a ht).harmless

/-- What resolves writes nothing. -/
theorem Resolves.asks {p : Program Backend α} (h : Resolves d role p) :
    p.Asks fun r : Backend.Request => r.writes = false :=
  h.asks_harmless.mono fun _ hr => hr.writes

/-- Requiring a permission writes nothing. -/
theorem writes_eq_false_of_requirePermission {user : UserId} {name : String}
    {r : Except Failure Unit} (h : (requirePermission d user name).run.Transcript t r) :
    ∀ e ∈ t, e.request.writes = false := by
  have hresolves : Resolves d ⟨0⟩ (requirePermission d user name).run :=
    resolves_requirePermission user name
  exact hresolves.asks t r h

end Resolves
end AccessControl.Authorization
