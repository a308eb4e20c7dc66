import AccessControl.Proofs.Program.Transcript
import AccessControl.Proofs.Text.CacheKey
import AccessControl.RemoteCache

/-! # Leads keep services apart

Services that share a server put a text of their own in front of their keys, the lead.  Leads are
arbitrary: they may hold colons, look like keys, or be empty.  What tells services apart is that
every key has exactly one colon (`CacheKey.exists_split`).  So in a key on the server the last colon
ends the word for the kind of the item, and if there is one more, the last but one ends the lead;
with an empty lead there is none (`RemoteCache.keyOn_injective`).

All that is asked of the server for an item is about the one key (`RemoteCache.asks_keyOn`).
-/
namespace AccessControl

namespace CacheKey

/-- Lists that have no separator after the last one are split by it in one way only. -/
theorem append_cons_inj_right (sep : Char) {l m r s : List Char} (hr : sep ∉ r) (hs : sep ∉ s)
    (h : l ++ sep :: r = m ++ sep :: s) : l = m ∧ r = s := by
  have hreverse : r.reverse ++ sep :: l.reverse = s.reverse ++ sep :: m.reverse := by
    simpa using congrArg List.reverse h
  obtain ⟨hrs, hlm⟩ := append_cons_inj sep (List.mem_reverse.not.mpr hr)
    (List.mem_reverse.not.mpr hs) hreverse
  exact ⟨List.reverse_injective hlm, List.reverse_injective hrs⟩

theorem not_colon_mem_ofInt {n : Int} : ':' ∉ Decimal.ofInt n :=
  Decimal.not_mem_ofInt (by decide) (by decide)

theorem not_colon_mem_chars {u : Uuid} : ':' ∉ u.chars :=
  fun h => Uuid.forall_mem_chars (P := (· ≠ ':')) (by decide) (by decide) h rfl

/-- The word for the kind of a key. -/
def word : CacheKey → List Char
  | .userRoles _ => ['U', 's', 'e', 'r', 'R', 'o', 'l', 'e', 's']
  | .userPermissions _ => ['U', 's', 'e', 'r', 'P', 'e', 'r', 'm', 'i', 's', 's', 'i', 'o', 'n', 's']
  | .rolePermissions _ => ['R', 'o', 'l', 'e', 'P', 'e', 'r', 'm', 'i', 's', 's', 'i', 'o', 'n', 's']
  | .tokenValidity _ _ => ['T', 'o', 'k', 'e', 'n', 'V', 'a', 'l', 'i', 'd', 'i', 't', 'y']
  | .securityStamp _ => ['S', 'e', 'c', 'u', 'r', 'i', 't', 'y', 'S', 't', 'a', 'm', 'p']

/-- What names the owner in a key. -/
def owner : CacheKey → List Char
  | .userRoles user => 'u' :: Decimal.ofInt user.number.toInt
  | .userPermissions user => 'u' :: Decimal.ofInt user.number.toInt
  | .rolePermissions role => 'r' :: Decimal.ofInt role.number.toInt
  | .tokenValidity user key => Decimal.ofInt user.number.toInt ++ '.' :: key.uuid.chars
  | .securityStamp user => Decimal.ofInt user.number.toInt

theorem toList_userId {user : UserId} : user.text.toList = Decimal.ofInt user.number.toInt :=
  String.toList_ofList

theorem toList_roleId {role : RoleId} : role.text.toList = Decimal.ofInt role.number.toInt :=
  String.toList_ofList

theorem toList_tokenKey {key : TokenKey} : key.text.toList = key.uuid.chars :=
  String.toList_ofList

/-- A key is its word, a colon and its owner. -/
theorem toList_text (k : CacheKey) : k.text.toList = k.word ++ ':' :: k.owner := by
  cases k with
  | userRoles user =>
    show ("UserRoles:u" ++ user.text).toList = _
    rw [String.toList_append, toList_userId]
    rfl
  | userPermissions user =>
    show ("UserPermissions:u" ++ user.text).toList = _
    rw [String.toList_append, toList_userId]
    rfl
  | rolePermissions role =>
    show ("RolePermissions:r" ++ role.text).toList = _
    rw [String.toList_append, toList_roleId]
    rfl
  | tokenValidity user key =>
    rw [text_tokenValidity, String.toList_append, String.toList_append, String.toList_append,
      toList_userId, toList_tokenKey]
    rfl
  | securityStamp user =>
    show ("SecurityStamp:" ++ user.text).toList = _
    rw [String.toList_append, toList_userId]
    rfl

theorem not_colon_mem_word (k : CacheKey) : ':' ∉ k.word := by
  cases k <;> (rw [word]; decide)

theorem not_colon_mem_owner (k : CacheKey) : ':' ∉ k.owner := by
  have hmarked : ∀ {c : Char} {cs : List Char}, c ≠ ':' → ':' ∉ cs → ':' ∉ c :: cs :=
    fun hc hcs => List.not_mem_cons_of_ne_of_not_mem (Ne.symm hc) hcs
  cases k with
  | userRoles user => exact hmarked (by decide) not_colon_mem_ofInt
  | userPermissions user => exact hmarked (by decide) not_colon_mem_ofInt
  | rolePermissions role => exact hmarked (by decide) not_colon_mem_ofInt
  | tokenValidity user key =>
    exact List.not_mem_append not_colon_mem_ofInt (hmarked (by decide) not_colon_mem_chars)
  | securityStamp user => exact not_colon_mem_ofInt

end CacheKey

namespace RemoteCache
open Program
variable {lead lead' key : String} {k l : CacheKey}

/-- With a lead a key on the server has a colon more. -/
theorem toList_keyOn (h : lead ≠ "") :
    (keyOn lead k.text).toList = (lead.toList ++ ':' :: k.word) ++ ':' :: k.owner := by
  rw [keyOn, if_neg (by simpa using h)]
  simp [CacheKey.toList_text]

/-- A key with a lead is no key without one. -/
theorem keyOn_ne_text (h : lead ≠ "") : keyOn lead k.text ≠ l.text := by
  intro heq
  have hlist := congrArg String.toList heq
  rw [toList_keyOn h, CacheKey.toList_text] at hlist
  obtain ⟨hword, -⟩ := CacheKey.append_cons_inj_right ':' k.not_colon_mem_owner
    l.not_colon_mem_owner hlist
  exact l.not_colon_mem_word (hword ▸ List.mem_append_right _ List.mem_cons_self)

/-- **The key on the server tells the lead and the item.** -/
theorem keyOn_injective (h : keyOn lead k.text = keyOn lead' l.text) : lead = lead' ∧ k = l := by
  by_cases hlead : lead = ""
  · subst hlead
    by_cases hlead' : lead' = ""
    · subst hlead'
      exact ⟨rfl, CacheKey.text_injective h⟩
    · exact absurd h.symm (keyOn_ne_text hlead')
  · by_cases hlead' : lead' = ""
    · subst hlead'
      exact absurd h (keyOn_ne_text hlead)
    · have hlist := congrArg String.toList h
      rw [toList_keyOn hlead, toList_keyOn hlead'] at hlist
      -- The last colon ends the word, the one before it ends the lead.
      obtain ⟨hfront, howner⟩ := CacheKey.append_cons_inj_right ':' k.not_colon_mem_owner
        l.not_colon_mem_owner hlist
      obtain ⟨hleads, hword⟩ := CacheKey.append_cons_inj_right ':' k.not_colon_mem_word
        l.not_colon_mem_word hfront
      refine ⟨String.toList_inj.mp hleads, CacheKey.text_injective (String.toList_inj.mp ?_)⟩
      rw [CacheKey.toList_text, CacheKey.toList_text, hword, howner]

/-! ## What is asked of the server -/

/-- A request to the cache is about what is cached under a key. -/
def About (key : String) : Backend.Request → Prop
  | .cacheGet text => text = key
  | .cacheSet text _ _ => text = key
  | .cacheDelete text => text = key
  | _ => False

/-- A request to the server is about a key on it: a command has the key as its second word. -/
def Names (key : String) : Request → Prop
  | .connect => True
  | .command words => words[1]? = some key

theorem asks_command {words : List String} (h : words[1]? = some key) :
    (command words).run.Asks (Names key) := by
  have hconnect : (Program.request (I := RemoteCache) .connect).Asks (Names key) :=
    asks_request trivial
  have hcommand : (Program.request (I := RemoteCache) (.command words)).Asks (Names key) :=
    asks_request h
  refine Asks.run_bind (hconnect.bind fun _ => asks_done _) fun connected => ?_
  refine Asks.run_bind (asks_done _) fun _ => ?_
  exact hcommand.bind fun _ => asks_done _

/-- **Whatever the server answers, all that is asked of it for an item is about the key of the item
under the lead.** -/
theorem asks_keyOn {r : Backend.Request} {p : Program RemoteCache (Backend.Answer r)}
    (hr : About key r) (hp : serve? lead r = some p) : p.Asks (Names (keyOn lead key)) := by
  cases r with
  | cacheGet text =>
    obtain rfl : text = key := hr
    obtain rfl := Option.some.inj hp
    refine Asks.run_bind (asks_command rfl) fun answer => ?_
    cases answer <;> exact asks_done _
  | cacheSet text value seconds =>
    obtain rfl : text = key := hr
    obtain rfl := Option.some.inj hp
    rw [set]
    split
    · exact asks_done _
    · refine Asks.run_bind (asks_command rfl) fun answer => ?_
      cases answer <;> exact asks_done _
  | cacheDelete text =>
    obtain rfl : text = key := hr
    obtain rfl := Option.some.inj hp
    refine Asks.run_bind (asks_command rfl) fun answer => ?_
    cases answer <;> exact asks_done _
  | _ => exact hr.elim

/-- **Services that share a server never meet.**  Under any two leads, two items have the same key
on the server only if the leads are the same and so are the items; and whatever the server answers,
a service asks it for an item by commands on the key of that item alone. -/
theorem services_never_meet (lead lead' : String) (k l : CacheKey) :
    (keyOn lead k.text = keyOn lead' l.text ↔ lead = lead' ∧ k = l) ∧
    ∀ r p, About k.text r → serve? lead r = some p → p.Asks (Names (keyOn lead k.text)) := by
  refine ⟨⟨keyOn_injective, ?_⟩, fun r p => asks_keyOn⟩
  rintro ⟨rfl, rfl⟩
  rfl

/-- A lead that has the beginning of a key in it: two services keep the roles of a user under two
keys, and the first one looks them up under its own. -/
theorem services_never_meet_on_lookalikes :
    keyOn "warden:UserRoles" (CacheKey.userRoles ⟨7⟩).text ≠
        keyOn "warden" (CacheKey.userRoles ⟨7⟩).text ∧
      About (CacheKey.userRoles ⟨7⟩).text (.cacheGet (CacheKey.userRoles ⟨7⟩).text) ∧
      (get "warden" (CacheKey.userRoles ⟨7⟩).text).run.Asks
        (Names (keyOn "warden" (CacheKey.userRoles ⟨7⟩).text)) := by
  obtain ⟨hkeys, hasks⟩ :=
    services_never_meet "warden" "warden:UserRoles" (.userRoles ⟨7⟩) (.userRoles ⟨7⟩)
  refine ⟨fun h => ?_, rfl, hasks (.cacheGet _) _ rfl rfl⟩
  exact absurd (hkeys.mp h.symm).1 (by decide)

end RemoteCache
end AccessControl
