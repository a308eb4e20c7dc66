import AccessControl.Cached.Access
import AccessControl.Proofs.Json.Spelling
import AccessControl.Proofs.Text.CacheKey
import Mathlib.Logic.Function.Basic

/-! # Five maps

The cached items are of five kinds, and what is cached of each kind is a map from owners to items
(`Cached.Maps`).  Here the calls that cache, look up and remove items are explained by these maps
alone (`Call.step`): nothing is said of texts, of keys that are texts, or of encodings.

A call is about one item.  It changes no other item, and its answer depends on no other item, so
the calls about one item are answered as if there were no other calls
(`filter_answers`).

What is cached under texts stands for five maps (`Maps.ofTexts`): no two items share a key, so a
change of one text changes one item.
-/
namespace AccessControl

/-- The items that may be cached under a key. -/
@[reducible] def CacheKey.Item : CacheKey → Type
  | .userRoles _ => Cached.UserRoles
  | .userPermissions _ => Cached.UserPermissions
  | .rolePermissions _ => Cached.RolePermissions
  | .tokenValidity _ _ => Cached.LiveToken
  | .securityStamp _ => Cached.Stamp

/-- The item that a text stands for under a key. -/
def CacheKey.decode? : (key : CacheKey) → String → Option key.Item
  | .userRoles _ => Json.decode?
  | .userPermissions _ => Json.decode?
  | .rolePermissions _ => Json.decode?
  | .tokenValidity _ _ => Json.decode?
  | .securityStamp _ => Json.decode?

namespace Cached

/-- What is cached, as one map for each kind of item. -/
structure Maps where
  userRoles : UserId → Option UserRoles
  userPermissions : UserId → Option UserPermissions
  rolePermissions : RoleId → Option RolePermissions
  stamps : UserId → Option Stamp
  liveTokens : UserId × TokenKey → Option LiveToken

namespace Maps
variable {m m' : Maps} {key other : CacheKey}

/-- Nothing is cached. -/
def empty : Maps :=
  ⟨fun _ => none, fun _ => none, fun _ => none, fun _ => none, fun _ => none⟩

/-- The item of a key. -/
def get (m : Maps) : (key : CacheKey) → Option key.Item
  | .userRoles user => m.userRoles user
  | .userPermissions user => m.userPermissions user
  | .rolePermissions role => m.rolePermissions role
  | .tokenValidity user key => m.liveTokens (user, key)
  | .securityStamp user => m.stamps user

/-- The maps with one item replaced or, if there is no new one, removed. -/
def put (m : Maps) : (key : CacheKey) → Option key.Item → Maps
  | .userRoles user, item? => { m with userRoles := Function.update m.userRoles user item? }
  | .userPermissions user, item? =>
    { m with userPermissions := Function.update m.userPermissions user item? }
  | .rolePermissions role, item? =>
    { m with rolePermissions := Function.update m.rolePermissions role item? }
  | .tokenValidity user key, item? =>
    { m with liveTokens := Function.update m.liveTokens (user, key) item? }
  | .securityStamp user, item? => { m with stamps := Function.update m.stamps user item? }

/-- Maps with the same items are the same. -/
theorem ext_get (h : ∀ key, m.get key = m'.get key) : m = m' := by
  obtain ⟨_, _, _, _, _⟩ := m
  obtain ⟨_, _, _, _, _⟩ := m'
  rw [mk.injEq]
  refine ⟨funext fun user => ?_, funext fun user => ?_, funext fun role => ?_,
    funext fun user => ?_, funext fun owner => ?_⟩
  · exact h (.userRoles user)
  · exact h (.userPermissions user)
  · exact h (.rolePermissions role)
  · exact h (.securityStamp user)
  · exact h (.tokenValidity owner.1 owner.2)

@[simp] theorem get_put_self (item? : Option key.Item) : (m.put key item?).get key = item? := by
  cases key <;> exact Function.update_self ..

/-- **One item is replaced, and no other.** -/
theorem get_put_of_ne (h : other ≠ key) (item? : Option key.Item) :
    (m.put key item?).get other = m.get other := by
  -- Items of one kind have different owners; items of two kinds are in different maps.
  cases key <;> cases other <;>
    first | rfl | (refine Function.update_of_ne (fun howner => h ?_) ..; cases howner; rfl)

theorem put_eq_self {item? : Option key.Item} (h : m.get key = item?) : m.put key item? = m := by
  apply ext_get
  intro other
  by_cases heq : other = key
  · subst heq
    rw [get_put_self, h]
  · rw [get_put_of_ne heq]

/-! ## What texts stand for -/

/-- The maps that texts under keys stand for. -/
def ofTexts (texts : String → Option String) : Maps where
  userRoles user := (texts (CacheKey.userRoles user).text).bind Json.decode?
  userPermissions user := (texts (CacheKey.userPermissions user).text).bind Json.decode?
  rolePermissions role := (texts (CacheKey.rolePermissions role).text).bind Json.decode?
  stamps user := (texts (CacheKey.securityStamp user).text).bind Json.decode?
  liveTokens owner := (texts (CacheKey.tokenValidity owner.1 owner.2).text).bind Json.decode?

theorem get_ofTexts (texts : String → Option String) (key : CacheKey) :
    (ofTexts texts).get key = (texts key.text).bind key.decode? := by
  cases key <;> rfl

theorem ofTexts_none : ofTexts (fun _ => none) = empty := rfl

/-- **A change of the text under a key changes the item of the key, and no other.** -/
theorem ofTexts_update (texts : String → Option String) (key : CacheKey)
    (value? : Option String) :
    ofTexts (Function.update texts key.text value?) =
      (ofTexts texts).put key (value?.bind key.decode?) := by
  apply ext_get
  intro other
  by_cases heq : other = key
  · subst heq
    rw [get_put_self, get_ofTexts, Function.update_self]
  · have htext : other.text ≠ key.text := fun h => heq (CacheKey.text_injective h)
    rw [get_put_of_ne heq, get_ofTexts, get_ofTexts, Function.update_of_ne htext]

end Maps

/-! ## Calls -/

/-- A call that caches, looks up or removes an item. -/
inductive Call where
  | setUserRoles (item : UserRoles)
  | setUserPermissions (item : UserPermissions)
  | setRolePermissions (item : RolePermissions)
  | setStamp (item : Stamp)
  | setLive (item : LiveToken)
  | userRoles (user : UserId)
  | userPermissions (user : UserId)
  | rolePermissions (role : RoleId)
  | stamp (user : UserId)
  | isLive (user : UserId) (key : TokenKey)
  | remove (key : CacheKey)

namespace Call

/-- What a call is answered with. -/
def Answer : Call → Type
  | .userRoles _ => Option UserRoles
  | .userPermissions _ => Option UserPermissions
  | .rolePermissions _ => Option RolePermissions
  | .stamp _ => Option Stamp
  | .isLive _ _ => Bool
  | _ => Unit

/-- The item that a call is about. -/
def key : Call → CacheKey
  | .setUserRoles item => Item.key item
  | .setUserPermissions item => Item.key item
  | .setRolePermissions item => Item.key item
  | .setStamp item => Item.key item
  | .setLive item => Item.key item
  | .userRoles user => .userRoles user
  | .userPermissions user => .userPermissions user
  | .rolePermissions role => .rolePermissions role
  | .stamp user => .securityStamp user
  | .isLive user key => .tokenValidity user key
  | .remove key => key

/-- The program that is called; items are cached for some seconds. -/
def program (seconds : UInt32) : (c : Call) → Program Backend c.Answer
  | .setUserRoles item => Cached.store seconds item
  | .setUserPermissions item => Cached.store seconds item
  | .setRolePermissions item => Cached.store seconds item
  | .setStamp item => Cached.store seconds item
  | .setLive item => Cached.store seconds item
  | .userRoles user => Cached.userRoles user
  | .userPermissions user => Cached.userPermissions user
  | .rolePermissions role => Cached.rolePermissions role
  | .stamp user => Cached.stamp user
  | .isLive user key => Cached.isLive user key
  | .remove key => Cached.remove key

/-- **What a call does to the maps**, and what it is answered with. -/
def step : (c : Call) → Maps → c.Answer × Maps
  | .setUserRoles item, m => ((), m.put (.userRoles item.userId) (some item))
  | .setUserPermissions item, m => ((), m.put (.userPermissions item.userId) (some item))
  | .setRolePermissions item, m => ((), m.put (.rolePermissions item.roleId) (some item))
  | .setStamp item, m => ((), m.put (.securityStamp item.userId) (some item))
  | .setLive item, m => ((), m.put (.tokenValidity item.userId item.key) (some item))
  | .userRoles user, m => (m.userRoles user, m)
  | .userPermissions user, m => (m.userPermissions user, m)
  | .rolePermissions role, m => (m.rolePermissions role, m)
  | .stamp user, m => (m.stamps user, m)
  | .isLive user key, m => ((m.liveTokens (user, key)).isSome, m)
  | .remove key, m => ((), m.put key none)

variable {m m' : Maps} {key : CacheKey}

/-- The item that a call is about is replaced, or nothing is. -/
theorem step_cases (c : Call) :
    (∃ item?, ∀ m, (c.step m).2 = m.put c.key item?) ∨ ∀ m, (c.step m).2 = m := by
  cases c with
  | setUserRoles item => exact .inl ⟨some item, fun _ => rfl⟩
  | setUserPermissions item => exact .inl ⟨some item, fun _ => rfl⟩
  | setRolePermissions item => exact .inl ⟨some item, fun _ => rfl⟩
  | setStamp item => exact .inl ⟨some item, fun _ => rfl⟩
  | setLive item => exact .inl ⟨some item, fun _ => rfl⟩
  | remove key => exact .inl ⟨none, fun _ => rfl⟩
  | _ => exact .inr fun _ => rfl

/-- A call leaves every other item as it is. -/
theorem get_step_of_ne (c : Call) (h : key ≠ c.key) : (c.step m).2.get key = m.get key := by
  rcases c.step_cases with ⟨item?, hput⟩ | hsame
  · rw [hput, Maps.get_put_of_ne h]
  · rw [hsame]

/-- What becomes of an item depends on that item alone. -/
theorem get_step_congr (c : Call) (h : m.get key = m'.get key) :
    (c.step m).2.get key = (c.step m').2.get key := by
  rcases c.step_cases with ⟨item?, hput⟩ | hsame
  · by_cases hkey : key = c.key
    · subst hkey
      rw [hput, hput, Maps.get_put_self, Maps.get_put_self]
    · rw [hput, hput, Maps.get_put_of_ne hkey, Maps.get_put_of_ne hkey, h]
  · rw [hsame, hsame, h]

/-- What a call is answered with depends on the item that it is about. -/
theorem answer_congr (c : Call) (h : m.get c.key = m'.get c.key) :
    (c.step m).1 = (c.step m').1 := by
  cases c with
  | userRoles user => exact h
  | userPermissions user => exact h
  | rolePermissions role => exact h
  | stamp user => exact h
  | isLive user key => exact congrArg Option.isSome h
  | _ => rfl

end Call

/-! ## Calls one after the other -/

/-- Answers to calls, each with its call. -/
abbrev Answers : Type := List ((c : Call) × c.Answer)

/-- What calls one after the other are answered with, and what they make of the maps. -/
def Maps.run : List Call → Maps → Answers × Maps
  | [], m => ([], m)
  | c :: calls, m =>
    (⟨c, (c.step m).1⟩ :: (run calls (c.step m).2).1, (run calls (c.step m).2).2)

/-- The program that makes calls one after the other. -/
def runAll (seconds : UInt32) : List Call → Program Backend Answers
  | [] => return []
  | c :: calls => do
    let answer ← c.program seconds
    let answers ← runAll seconds calls
    return ⟨c, answer⟩ :: answers

/-- **The calls about one item are answered as if there were no others**, whatever is cached
for others. -/
theorem filter_answers (calls : List Call) {key : CacheKey} {m m' : Maps}
    (h : m.get key = m'.get key) :
    (Maps.run calls m).1.filter (fun answer => answer.1.key = key) =
      (Maps.run (calls.filter fun c => c.key = key) m').1 := by
  induction calls generalizing m m' with
  | nil => rfl
  | cons c calls ih =>
    by_cases hkey : c.key = key
    · subst hkey
      rw [List.filter_cons_of_pos (by simp), Maps.run, Maps.run,
        List.filter_cons_of_pos (by simp), c.answer_congr h, ih (c.get_step_congr h)]
    · have hsame : (c.step m).2.get key = m'.get key :=
        (c.get_step_of_ne (Ne.symm hkey)).trans h
      rw [List.filter_cons_of_neg (by simpa using hkey), Maps.run,
        List.filter_cons_of_neg (by simpa using hkey), ih hsame]

end Cached
end AccessControl
