import AccessControl.Cached.Key
import AccessControl.Proofs.Text.Uuid

/-! # No two items share a key

The kinds of keys begin with different words.  In the key of a token the dot ends the number
of the user, since a number is written without one.
-/
namespace AccessControl
namespace CacheKey

/-- Lists that continue without a separator up to one are split by it in one way only. -/
theorem append_cons_inj (sep : Char) {l m r s : List Char} (hl : sep ∉ l) (hm : sep ∉ m)
    (h : l ++ sep :: r = m ++ sep :: s) : l = m ∧ r = s := by
  induction l generalizing m with
  | nil =>
    cases m with
    | nil => exact ⟨rfl, (List.cons.inj h).2⟩
    | cons c m => exact absurd ((List.cons.inj h).1 ▸ List.mem_cons_self) hm
  | cons c l ih =>
    cases m with
    | nil => exact absurd ((List.cons.inj h).1 ▸ List.mem_cons_self) hl
    | cons d m =>
      obtain ⟨rfl, htail⟩ := List.cons.inj h
      obtain ⟨rfl, rfl⟩ := ih (fun hmem => hl (List.mem_cons_of_mem _ hmem))
        (fun hmem => hm (List.mem_cons_of_mem _ hmem)) htail
      exact ⟨rfl, rfl⟩

theorem text_tokenValidity {u : UserId} {k : TokenKey} :
    (tokenValidity u k).text = "TokenValidity:" ++ (u.text ++ ("." ++ k.text)) := by
  show "TokenValidity:" ++ u.text ++ "." ++ k.text = _
  rw [String.append_assoc, String.append_assoc]

theorem tokenValidity_injective {u v : UserId} {k l : TokenKey}
    (h : (tokenValidity u k).text = (tokenValidity v l).text) : u = v ∧ k = l := by
  rw [text_tokenValidity, text_tokenValidity] at h
  have hlist := congrArg String.toList ((String.append_right_inj _).mp h)
  simp only [String.toList_append] at hlist
  obtain ⟨hu, hk⟩ := append_cons_inj '.' (by
      rw [UserId.text, Decimal.text, String.toList_ofList]
      exact Decimal.not_mem_ofInt (by decide) (by decide)) (by
      rw [UserId.text, Decimal.text, String.toList_ofList]
      exact Decimal.not_mem_ofInt (by decide) (by decide)) hlist
  exact ⟨UserId.text_injective (String.toList_inj.mp hu),
    TokenKey.text_injective (String.toList_inj.mp hk)⟩

/-- What a key begins with; the first five characters already tell the kinds apart. -/
def mark : CacheKey → List Char
  | .userRoles _ => ['U', 's', 'e', 'r', 'R']
  | .userPermissions _ => ['U', 's', 'e', 'r', 'P']
  | .rolePermissions _ => ['R', 'o', 'l', 'e', 'P']
  | .tokenValidity _ _ => ['T', 'o', 'k', 'e', 'n']
  | .securityStamp _ => ['S', 'e', 'c', 'u', 'r']

theorem take_text (k : CacheKey) : k.text.toList.take 5 = k.mark := by
  cases k with
  | tokenValidity u key =>
    rw [text_tokenValidity, String.toList_append]
    rfl
  | userRoles u =>
    show ("UserRoles:u" ++ u.text).toList.take 5 = _
    rw [String.toList_append]
    rfl
  | userPermissions u =>
    show ("UserPermissions:u" ++ u.text).toList.take 5 = _
    rw [String.toList_append]
    rfl
  | rolePermissions r =>
    show ("RolePermissions:r" ++ r.text).toList.take 5 = _
    rw [String.toList_append]
    rfl
  | securityStamp u =>
    show ("SecurityStamp:" ++ u.text).toList.take 5 = _
    rw [String.toList_append]
    rfl

/-- **Items with the same key are the same item.** -/
theorem text_injective {k l : CacheKey} (h : k.text = l.text) : k = l := by
  -- Keys with different marks differ; keys of one kind differ in what follows the word in front.
  have hmark : k.mark = l.mark := by rw [← take_text, ← take_text, h]
  cases k with
  | userRoles u =>
    cases l with
    | userRoles v => rw [UserId.text_injective ((String.append_right_inj _).mp h)]
    | _ => exact absurd hmark (by simp [mark])
  | userPermissions u =>
    cases l with
    | userPermissions v => rw [UserId.text_injective ((String.append_right_inj _).mp h)]
    | _ => exact absurd hmark (by simp [mark])
  | rolePermissions r =>
    cases l with
    | rolePermissions s => rw [RoleId.text_injective ((String.append_right_inj _).mp h)]
    | _ => exact absurd hmark (by simp [mark])
  | tokenValidity u key =>
    cases l with
    | tokenValidity v key' =>
      obtain ⟨rfl, rfl⟩ := tokenValidity_injective h
      rfl
    | _ => exact absurd hmark (by simp [mark])
  | securityStamp u =>
    cases l with
    | securityStamp v => rw [UserId.text_injective ((String.append_right_inj _).mp h)]
    | _ => exact absurd hmark (by simp [mark])

end CacheKey
end AccessControl
