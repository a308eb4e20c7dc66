/-! # The permissions of the service

The names that the service itself asks for, and all the permissions it comes with.
-/
namespace AccessControl.Permission

/-- Creating roles. -/
def createRoles : String := "Pages.Administration.Roles.Create"
/-- Changing roles and what they grant. -/
def editRoles : String := "Pages.Administration.Roles.Edit"
/-- Deleting roles. -/
def deleteRoles : String := "Pages.Administration.Roles.Delete"
/-- Listing roles. -/
def listRoles : String := "Pages.Administration.Roles"
/-- Changing users, with the roles they have. -/
def editUsers : String := "Pages.Administration.Users.Edit"
/-- Changing the permissions of a user alone. -/
def changeUserPermissions : String := "Pages.Administration.Users.ChangePermissions"
/-- Ending the sessions of another user. -/
def unlockUsers : String := "Pages.Administration.Users.Unlock"

/-- The permissions that the service comes with: name, label and group. -/
def standard : List (String × String × String) :=
  [("Pages", "Pages", "General"),
   ("Pages.Tenants", "Tenants", "Tenants"),
   ("Pages.Administration", "Administration", "Administration"),
   ("Pages.Administration.Users", "Users", "Users"),
   ("Pages.Administration.Users.Create", "Create user", "Users"),
   (editUsers, "Edit user", "Users"),
   ("Pages.Administration.Users.Delete", "Delete user", "Users"),
   (changeUserPermissions, "Change user permissions", "Users"),
   (unlockUsers, "Unlock user", "Users"),
   (listRoles, "Roles", "Roles"),
   (createRoles, "Create role", "Roles"),
   (editRoles, "Edit role", "Roles"),
   (deleteRoles, "Delete role", "Roles"),
   ("Pages.Administration.AuditLogs", "Audit logs", "Administration"),
   ("Pages.Administration.Host.Settings", "Host settings", "Administration")]

end AccessControl.Permission
