import AccessControl.Proofs.Services.Reached
import AccessControl.Proofs.Session.Order
import AccessControl.Proofs.Session.SignOut
import AccessControl.Proofs.World.Bystander

/-! # Users do not interfere

Whatever is done to one user passes every other user by (`passesBy_of_targets`): issuing,
exchanging, revoking and rotating are about records, stamps and cached items of the one user, and
administration writes the rows or the roles of the one user.  What is read on the way may be about
anybody, and it is cached as it was read.

So for everybody else all decisions are as before, and every token is validated as before; whether
the call succeeds, fails, or is given up, and whatever fails on the way.
-/
namespace AccessControl

namespace Session
open World Outside Program Backend.Request
variable {signer : Jwt.Signer} {token : String} {user owner : UserId} {d : Deployment}
  {kind : Token.Kind} {fails : Backend.Request → Bool} {w w' : World} {t : Log}

/-- **A token is of nobody but a user**: whatever user it names when it is verified is that one. -/
def OnlyOf (signer : Jwt.Signer) (token : String) (user : UserId) : Prop :=
  ∀ now claims owner, signer.verify now token = .ok claims → claims.userId = .ok owner →
    owner = user

/-- What is signed for a user is of nobody else. -/
theorem onlyOf_sign {claims : Token.Claims} (huser : claims.userId = .ok user) :
    OnlyOf signer (signer.sign claims) user := by
  intro now said owner h howner
  obtain rfl := Jwt.Signer.eq_of_verify_sign h
  exact Except.ok.inj (howner.symm.trans huser)

/-- **A validation of a token of a user is all about the user.** -/
theorem ofSessions_of_validate {r : Except Failure Token.Validated}
    (ht : (validate d token kind).run.Transcript t r) (hf : (steady mayFail).Follows w t w')
    (htoken : OnlyOf w.signer token user) :
    ∀ e ∈ t, Backend.Request.OfSessions user e.request := by
  rw [validate_run_eq] at ht
  obtain ⟨verdict, rest, rfl, hrest⟩ := transcript_call_iff.mp ht
  obtain ⟨m, ha, -⟩ := follows_cons_iff.mp hf
  have hverdict : verdict = w.signer.verify w.now token := (verify_answered ha).2
  have hof : ∀ claims owner, verdict = .ok claims → claims.userId = .ok owner → owner = user :=
    fun claims owner hclaims => htoken w.now claims owner (hverdict.symm.trans hclaims)
  refine List.forall_mem_cons.mpr ⟨trivial, ?_⟩
  refine asks_validateVerified (fun claims owner hclaims howner => ?_)
    (fun claims owner key hclaims howner _ => ?_) rest r hrest
  · have hkey : ∃ key : CacheKey, key.OfSessions user ∧
        key.text = (CacheKey.securityStamp owner).text :=
      ⟨.securityStamp owner, hof claims owner hclaims howner, rfl⟩
    exact ⟨hkey, hkey, hof claims owner hclaims howner, fun _ _ => hkey⟩
  · have hkey' : ∃ key' : CacheKey, key'.OfSessions user ∧
        key'.text = (CacheKey.tokenValidity owner key).text :=
      ⟨.tokenValidity owner key, hof claims owner hclaims howner, rfl⟩
    exact ⟨hkey', hkey', trivial, fun _ => hof claims owner hclaims howner, fun _ => hkey'⟩

/-- **A token of a user is validated alike in worlds that are alike for the user.** -/
theorem sameOutcome_of_alikeFor (h : AlikeFor user w w') (htoken : OnlyOf w.signer token user) :
    SameOutcome (validate d token kind).run w w' := by
  have htoken' : OnlyOf w'.signer token user := h.signer ▸ htoken
  exact sameOutcome_of_alike answersAlike_alikeFor h h.symm
    (fun _ _ _ ht hf => ofSessions_of_validate ht hf htoken)
    fun _ _ _ ht hf => ofSessions_of_validate ht hf htoken'

/-! ## Sessions of others -/

/-- All that is asked for about one user passes every other user by. -/
theorem allowsOf_passesBy (h : owner ≠ user) : AllowsOf (PassesBy user) owner where
  fresh := trivial
  now := trivial
  sign _ := trivial
  createToken _ _ := h
  deleteToken _ := h
  deleteTokens := h
  updateStamp _ := h
  stamp :=
    have hout : OutsideSessions user (CacheKey.securityStamp owner).text := outsideSessions h
    ⟨trivial, hout, trivial, fun _ _ => hout⟩
  key key :=
    have hout : OutsideSessions user (CacheKey.tokenValidity owner key).text := outsideSessions h
    ⟨trivial, hout, trivial, fun _ => trivial, fun _ => hout⟩

theorem asks_exchange {P : Backend.Request → Prop} {validated : Token.Validated}
    (h : AllowsOf P validated.userId) : (exchange d validated).run.Asks P := by
  refine Asks.run_bind (asks_refusing _) fun refreshKey => ?_
  refine Asks.run_bind (asks_backend (.findStamp validated.userId) h.stamp.find) fun stamp? => ?_
  cases stamp? with
  | none => exact asks_run_throw _
  | some stamp =>
    have hsubject : AllowsOf P (Token.Subject.mk validated.userId stamp).userId := h
    exact hsubject.asks_issue d .access _

/-- **An exchange of a token passes by whoever the token is not of**, however far it comes. -/
theorem passesBy_of_refreshAccess (howner : owner ≠ user)
    (ht : (refreshAccess d token).run.Begins t) (hf : (steady fails).Follows w t w')
    (htoken : OnlyOf w.signer token owner) : ∀ e ∈ t, e.request.PassesBy user := by
  rw [refreshAccess_run_eq] at ht
  obtain ⟨rest, r, ht⟩ := ht
  cases t with
  | nil => exact List.forall_mem_nil _
  | cons e t =>
    obtain ⟨verdict, rest', heq, hrest⟩ := transcript_call_iff.mp ht
    obtain ⟨rfl, rfl⟩ := List.cons.inj heq
    obtain ⟨m, ha, -⟩ := follows_cons_iff.mp hf
    have hverdict : verdict = w.signer.verify w.now token := (verify_answered ha).2
    have hP : ∀ claims other, verdict = .ok claims → claims.userId = .ok other →
        AllowsOf (PassesBy user) other := by
      intro claims other hclaims hother
      obtain rfl := htoken w.now claims other (hverdict.symm.trans hclaims) hother
      exact allowsOf_passesBy howner
    have hasks : (validateVerified d .refresh verdict >>= exchange d).run.Asks (PassesBy user) :=
      asks_validateVerified_bind
        (fun claims other hclaims hother => (hP claims other hclaims hother).stamp)
        (fun claims other key hclaims hother _ => (hP claims other hclaims hother).key key)
        fun claims other hclaims hother => by
          have hother' : AllowsOf (PassesBy user) (Token.Validated.mk other claims).userId :=
            hP claims other hclaims hother
          exact asks_exchange hother'
    refine List.forall_mem_cons.mpr ⟨trivial, fun e he => ?_⟩
    exact hasks _ _ hrest e (List.mem_append_left _ he)

end Session

namespace Services
open World Outside Program Administration Authorization Backend.Request
variable {d : Deployment} {actor user owner : UserId} {mayFail : Backend.Request → Bool}
  {w w' : World} {t : List (Exchange Backend)}

/-! ## Administration of others -/

/-- Decisions on anybody pass every user by. -/
theorem allowsDecisions_passesBy (actor : UserId) : AllowsDecisions (PassesBy user) actor := by
  have hitem : ∀ key : CacheKey, ¬key.OfSessions user → AllowsItem (PassesBy user) key :=
    fun key hkey => ⟨trivial, outsideSessions hkey, fun _ _ => outsideSessions hkey⟩
  exact ⟨trivial, trivial, hitem _ id, hitem _ id, fun role => ⟨trivial, trivial, hitem _ id⟩⟩

/-- What follows a permission that is required passes a user by, if it does so by itself. -/
theorem asks_gate_bind {α : Type} {name : String} {f : Unit → Service α}
    (hf : (f ()).run.Asks (PassesBy user)) :
    (requirePermission d actor name >>= f).run.Asks (PassesBy user) :=
  Asks.run_bind (Authorization.asks_requirePermission (allowsDecisions_passesBy actor) name)
    fun _ => hf

theorem asks_remove_passesBy {key : CacheKey} (hkey : ¬key.OfSessions user) :
    (liftM (Cached.remove key) : Service Unit).run.Asks (PassesBy user) := by
  have hremove : (Cached.remove key).Asks (PassesBy user) := asks_remove (outsideSessions hkey)
  exact hremove.run_lift

theorem asks_replaceOverrides_passesBy (h : owner ≠ user) (rows : List Grant) :
    (replaceOverrides owner rows).run.Asks (PassesBy user) :=
  Asks.run_bind (asks_backend (.replaceUserGrants owner rows) h) fun _ => asks_remove_passesBy id

theorem asks_roleDerived_passesBy : (roleDerived d owner).run.Asks (PassesBy user) := by
  refine Asks.run_bind (asks_backend (.userRoles owner) trivial) fun roles => ?_
  refine Asks.run_bind (asks_loadRoles (fun role => ?_) roles) fun _ => asks_run_pure _
  exact (allowsDecisions_passesBy owner).role role

namespace Call

/-- **A call is about a user**: it issues, exchanges, revokes or rotates what is of the user, or
changes the rows or the roles of the user. -/
def Targets (signer : Jwt.Signer) (user : UserId) : Call → Prop
  | .session (.issue subject _ _) => subject.userId = user
  | .session (.issuePair subject) => subject.userId = user
  | .session (.refreshAccess token) => Session.OnlyOf signer token user
  | .session (.revoke owner _) => owner = user
  | .session (.rotateStamp owner) => owner = user
  | .administration (.setUserPermissions _ owner _) => owner = user
  | .administration (.setUserGrantedPermissions _ owner _) => owner = user
  | .administration (.resetUserPermissions _ owner) => owner = user
  | .administration (.setUserRoles _ owner _) => owner = user
  | _ => False

/-- A call begins in order, whatever answers it. -/
theorem begins_in_order (c : Call) (ht : (c.service d).run.Begins t) :
    OrderlyBut d.catalog (fun _ => True) t := by
  cases c with
  | administration c => exact (c.keepsOrder d).begins ht
  | listRoleGrants actor role => exact (keepsOrder_listRoleGrants actor role).begins ht
  | session c => exact (c.keepsOrder d).begins ht

end Call

/-- **A call about one user passes every other user by**, however far it comes. -/
theorem passesBy_of_targets {c : Call} (hc : c.Targets w.signer owner) (howner : owner ≠ user)
    (ht : (c.service d).run.Begins t) (hf : (steady mayFail).Follows w t w') :
    ∀ e ∈ t, e.request.PassesBy user := by
  cases c with
  | listRoleGrants actor role => exact hc.elim
  | session c =>
    cases c with
    | issue subject kind refreshKey =>
      obtain rfl : subject.userId = owner := hc
      exact ((Session.allowsOf_passesBy howner).asks_issue d kind refreshKey).begins ht
    | issuePair subject =>
      obtain rfl : subject.userId = owner := hc
      exact ((Session.allowsOf_passesBy howner).asks_issuePair d).begins ht
    | validate token kind => exact hc.elim
    | refreshAccess token => exact Session.passesBy_of_refreshAccess howner ht hf hc
    | revoke other claims =>
      obtain rfl : other = owner := hc
      exact ((Session.allowsOf_passesBy howner).asks_revoke claims).begins ht
    | rotateStamp other =>
      obtain rfl : other = owner := hc
      exact (Session.allowsOf_passesBy howner).asks_rotateStamp.begins ht
  | administration c =>
    cases c with
    | setUserPermissions actor other changes =>
      obtain rfl : other = owner := hc
      refine Asks.begins (asks_gate_bind ?_) ht
      exact Asks.run_bind (asks_run_check _) fun _ => asks_replaceOverrides_passesBy howner _
    | setUserGrantedPermissions actor other granted =>
      obtain rfl : other = owner := hc
      refine Asks.begins (asks_gate_bind ?_) ht
      refine Asks.run_bind (asks_run_check _) fun _ => ?_
      exact Asks.run_bind asks_roleDerived_passesBy fun _ => asks_replaceOverrides_passesBy howner _
    | resetUserPermissions actor other =>
      obtain rfl : other = owner := hc
      exact Asks.begins (asks_gate_bind (asks_replaceOverrides_passesBy howner _)) ht
    | setUserRoles actor other roles =>
      obtain rfl : other = owner := hc
      refine Asks.begins (asks_gate_bind ?_) ht
      exact Asks.run_bind (asks_backend (.replaceUserRoles _ _) howner) fun _ =>
        asks_remove_passesBy id
    | _ => exact hc.elim

/-- What passes a user by leaves every decision on the user as it is. -/
theorem yields_isGranted_of_passesBy (hw : w.Coherent d.catalog)
    (hf : (unreliable mayFail).Follows w t w') (horder : OrderlyBut d.catalog (fun _ => True) t)
    (ht : ∀ e ∈ t, e.request.PassesBy user) (name : String) :
    ∃ granted, lossy.Yields (isGranted d user name).run w (fun r _ => r = .ok granted) ∧
      lossy.Yields (isGranted d user name).run w' fun r _ => r = .ok granted := by
  have hsame : w'.store.permissions d.catalog user = w.store.permissions d.catalog user := by
    refine Store.permissions_of_agreesFor fun key hkey => Store.SameData.agrees ?_
    exact sameData_of_follows hf fun e he => (ht e he).not_unsettles hkey
  have hcoherent := hw.of_passesBy hf horder ht
  refine ⟨(w.store.permissions d.catalog user).contains name, yields_of_ensures ?_,
    yields_of_ensures ?_⟩
  · exact (ensures_isGranted hw name).mono fun _ _ hr => hr.1
  · rw [← hsame]
    refine (ensures_isGranted_but hcoherent ?_ ?_ (fun role => ?_) name).mono fun _ _ hr => hr.1
    · exact not_not_intro rfl
    · exact not_not_intro rfl
    · exact not_not_intro trivial

/-- **Users do not interfere.**  In a coherent world something is done to one user, by whomever:
tokens are issued for the user or exchanged, revoked or made void by a rotation of the stamp, or the
rows or the roles of the user are changed.  It succeeds, or fails, or is given up; and anything may
fail on the way, removals from the cache included.  Then every decision on every other user is as it
was before; and every token of every other user has the same outcome when it is validated, as a
token of either kind and at any instant, as it would have had in the world before. -/
theorem users_do_not_interfere (hw : w.Coherent d.catalog) (hother : owner ≠ user) {c : Call}
    (hc : c.Targets w.signer owner) (ht : (c.service d).run.Begins t)
    (hf : (steady mayFail).Follows w t w') :
    (∀ name, ∃ granted,
      lossy.Yields (isGranted d user name).run w (fun r _ => r = .ok granted) ∧
      lossy.Yields (isGranted d user name).run w' fun r _ => r = .ok granted) ∧
    ∀ token, Session.OnlyOf w.signer token user → ∀ kind now,
      Session.SameOutcome (Session.validate d token kind).run (w.atInstant now)
        (w'.atInstant now) := by
  have hpasses := passesBy_of_targets hc hother ht hf
  constructor
  · intro name
    have horder := c.begins_in_order ht
    exact yields_isGranted_of_passesBy hw (unreliable_of_steady hf) horder hpasses name
  · intro token htoken kind now
    have halike := alikeFor_of_follows hf hpasses
    exact Session.sameOutcome_of_alikeFor (halike.atInstant now) htoken

/-- A world that is set up with two users, the second of whom has the privileged role. -/
def twoUsers : World :=
  after [.createRole ⟨"Admin", "Admin", true, []⟩, .createUser "alice", .createUser "bob",
    .replaceUserRoles ⟨2⟩ [⟨1⟩]] { World.ofStore Store.empty with supply := .repeating }

/-- The second user, with the stamp that was drawn for the user. -/
def bob : Token.Subject := ⟨⟨2⟩, ⟨.repeating 1⟩⟩

/-- The world in which the second user has signed in. -/
def bobSignedIn : World := (World.run (Session.issuePair editing bob).run twoUsers).2

/-- The world in which the stamp of the first user has been rotated as well. -/
def aliceRotated : World := (World.run (Session.rotateStamp ⟨1⟩).run bobSignedIn).2

/-- The stamp of the first user is rotated: the second one keeps all permissions, and what is signed
for the second one is validated as before. -/
theorem users_do_not_interfere_after_rotateStamp :
    bobSignedIn.Coherent editing.catalog ∧ (⟨1⟩ : UserId) ≠ bob.userId ∧
      bobSignedIn.store.stampOf bob.userId = some bob.stamp ∧
      aliceRotated.store.stampOf ⟨1⟩ = some ⟨.repeating 6⟩ ∧
      (∀ name, ∃ granted,
        lossy.Yields (isGranted editing bob.userId name).run bobSignedIn
          (fun r _ => r = .ok granted) ∧
        lossy.Yields (isGranted editing bob.userId name).run aliceRotated
          fun r _ => r = .ok granted) ∧
      ∀ claims : Token.Claims, claims.userId = .ok bob.userId → ∀ kind now,
        Session.SameOutcome (Session.validate editing (bobSignedIn.signer.sign claims) kind).run
          (bobSignedIn.atInstant now) (aliceRotated.atInstant now) := by
  have hsound : twoUsers.store.Sound := (proceeds_after _).sound .empty
  have hreached : Reached editing Backend.Request.mayBeLost twoUsers bobSignedIn :=
    Reached.start.run (.session (.issuePair bob))
  have hcoherent : bobSignedIn.Coherent editing.catalog :=
    hreached.coherent (fun _ => rfl) rfl hsound
  have hne : (⟨1⟩ : UserId) ≠ bob.userId := by decide
  have htargets : Call.Targets bobSignedIn.signer ⟨1⟩ (.session (.rotateStamp ⟨1⟩)) := rfl
  have hbegins : ((Call.session (.rotateStamp ⟨1⟩)).service editing).run.Begins
      (World.exchanges (Session.rotateStamp ⟨1⟩).run bobSignedIn) :=
    (transcript_exchanges _ bobSignedIn).begins
  have hfollows : (steady Backend.Request.mayBeLost).Follows bobSignedIn
      (World.exchanges (Session.rotateStamp ⟨1⟩).run bobSignedIn) aliceRotated :=
    steady_follows_exchanges _ bobSignedIn
  obtain ⟨hgranted, hvalidated⟩ :=
    users_do_not_interfere hcoherent hne htargets hbegins hfollows
  refine ⟨hcoherent, hne, by decide +kernel, by decide +kernel, hgranted, ?_⟩
  intro claims hclaims kind now
  exact hvalidated _ (Session.onlyOf_sign hclaims) kind now

end Services
end AccessControl
