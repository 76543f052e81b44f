import Legalise.Postgres.Value

/-!
This module contains the rows that the application asks the audit log to write.
-/

/--
The arguments of a call of `audit.log`.
-/
structure AuditLog where
  action : PyStr
  actorId : Option Uuid := none
  matterId : Option Uuid := none
  module : Option PyStr := none
  resourceType : Option PyStr := none
  resourceId : Option PyStr := none
  payload : Dict
