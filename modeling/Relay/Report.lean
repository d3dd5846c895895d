/-
# Execution reports

Every execution ends in one report. It either succeeded with the status of a
response and a body, or failed with a status and what went wrong; without a
response the code of the failure stands for the status.

Key definitions: `Report`, `Report.Status`, `Report.Ending`, `Report.toJson`.
-/
import Relay.Failure
import Relay.Audit.Snapshot

namespace Relay

namespace Report

inductive Status where
  | http (code : Nat)
  | internal (code : String)
  deriving DecidableEq, Repr, Inhabited

def Status.text : Status → String
  | .http code => toString code
  | .internal code => code

def Status.http? : Status → Option Nat
  | .http code => some code
  | .internal _ => none

/-- A success has a body, a failure its description; never both. -/
inductive Ending where
  | success (status : Nat) (body : Json)
  | failed (status : Status) (info : Failure.Info)
  deriving DecidableEq, Inhabited

end Report

structure Report where
  ending : Report.Ending
  /-- Of the response, by name. -/
  headers : Table String := []
  /-- What was sent, if anything was. -/
  snapshot : Option Snapshot := none
  /-- The credential that was renewed on the way, for the caller to store. -/
  refreshed : Option Credential := none
  deriving DecidableEq, Inhabited

namespace Report

def success (status : Nat) (body : Json) (headers : Table String) (snapshot : Option Snapshot) :
    Report :=
  ⟨.success status body, headers, snapshot, none⟩

def failed (status : Status) (f : Failure) (headers : Table String) (snapshot : Option Snapshot) :
    Report :=
  ⟨.failed status f.info, headers, snapshot, none⟩

/-- A failure without a response. -/
def ofFailure (f : Failure) (snapshot : Option Snapshot) : Report :=
  failed (.internal f.kind.code) f [] snapshot

def isSuccess (r : Report) : Bool :=
  match r.ending with
  | .success .. => true
  | .failed .. => false

def status (r : Report) : Status :=
  match r.ending with
  | .success code _ => .http code
  | .failed s _ => s

def body? (r : Report) : Option Json :=
  match r.ending with
  | .success _ body => some body
  | .failed .. => none

def info? (r : Report) : Option Failure.Info :=
  match r.ending with
  | .success .. => none
  | .failed _ info => some info

/-- Hands over the renewed credential, once. -/
def takeRefreshed (r : Report) : Option Credential × Report :=
  (r.refreshed, { r with refreshed := none })

/-- What is missing is left out, and so is the renewed credential. -/
def toJson (r : Report) : Json :=
  .obj (
    (match r.body? with | some b => [("body", b)] | none => [])
    ++ (match r.info? with | some i => [("errorInfo", i.toJson)] | none => [])
    ++ [("headers", .obj (r.headers.mapValues Json.str)), ("isExecutionSuccess", .bool r.isSuccess)]
    ++ (match r.snapshot with | some s => [("request", s.toJson)] | none => [])
    ++ [("statusCode", .str r.status.text)])

end Report

end Relay
