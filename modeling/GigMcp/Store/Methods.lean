import GigMcp.Data.Calendar
import GigMcp.System.Call
import Mathlib.Algebra.GroupWithZero.Nat

/-!
# The store's methods

`sql` issues one statement; most methods of `store.Store` are exactly that.  The
ones below do more: they read the clock first, or issue several statements that
other requests may come between, or ignore the error of one of them.
-/

namespace GigMcp.Store

open GigMcp.Effect GigMcp.System

/-- Issue one statement. -/
@[reducible] def sql (c : Sql) : Code (Except Err c.Ans) := perform (.sql c)

/-- Read the clock. -/
@[reducible] def now : Code Time := perform .now

def upsertUserByOIDC (issuer subject email displayName : String) (role : Role) :
    Code (Except Err User) := do
  let t ← now
  sql (.upsertUserByOIDC issuer subject email displayName role t)

/-- Expired rows are purged first; a failing purge is ignored. -/
def createSession (tokenHash : String) (userID : Int64) (expiresAt : Time) :
    Code (Except Err Unit) := do
  let t ← now
  let _ ← sql (.purgeSessions t)
  let t ← now
  sql (.insertSession tokenHash userID t expiresAt)

/-- A row that is past its expiry is deleted and reported as missing. -/
def getSession (tokenHash : String) : Code (Except Err Session) := do
  match ← sql (.selectSession tokenHash) with
  | .error e => return .error e
  | .ok sess =>
      let t ← now
      if sess.expiresAt < t then
        let _ ← sql (.reapSession tokenHash sess.expiresAt)
        return .error .sessionNotFound
      else return .ok sess

def createProfile (slug name : String) (userID : Int64) (tokenHash : String) :
    Code (Except Err Profile) := do
  let t ← now
  sql (.createProfile slug name userID tokenHash t)

def installForUser (userID : Int64) (server : String) : Code (Except Err Unit) := do
  let t ← now
  sql (.installForUser userID server t)

/-- Three statements, in this order, without a transaction. -/
def uninstallForUser (userID : Int64) (server : String) : Code (Except Err Unit) := do
  match ← sql (.deleteOwnProfileServers userID server) with
  | .error e => return .error e
  | .ok _ =>
      match ← sql (.deleteOwnDisabledTools userID server) with
      | .error e => return .error e
      | .ok _ => sql (.deleteOwnInstall userID server)

/-- One transaction.  What it does before its commit no one else sees, so it is a read that may
fail.  The ids are returned also with an error of the commit. -/
def removeServerFromProfiles (serverName : String) : Code (List Int64 × Except Err Unit) := do
  match ← sql (.affectedProfiles serverName) with
  | .error e => return ([], .error e)
  | .ok ids =>
      let committed ← sql (.removeServerFromProfiles serverName)
      return (ids, committed)

/-- Three statements, in this order, without a transaction. -/
def cascadeRemoveServer (server : String) : Code (Except Err Unit) := do
  match ← sql (.deleteInstallsOf server) with
  | .error e => return .error e
  | .ok _ =>
      match ← sql (.deleteUserDisabledToolsOf server) with
      | .error e => return .error e
      | .ok _ => sql (.deleteProfileServersOf server)

/-- An audit row dated now, as every caller but the egress writer dates it. -/
def appendAudit (kind : AuditKind) (userID profileID : Option Int64) (decision detail : String) :
    Code (Except Err Unit) := do
  let t ← now
  sql (.appendAudit ⟨0, t, kind, userID, profileID, "", "", decision, detail⟩)

/-- `limit` is clamped to [1,500], with 100 for values that are not positive. -/
def listAudit (beforeID : Int64) (limit : Int) (userID : Int64) :
    Code (Except Err (List AuditEvent)) :=
  sql (.listAudit beforeID (if limit ≤ 0 then 100 else min limit 500).toNat userID)

/-! ## The activity of a user -/

end GigMcp.Store

namespace GigMcp.Time

open GigMcp.Data

def day : Time := 24 * 60 * 60 * second

/-- The zero time, the first of January of the year 1. -/
def zero : Time := ofUnix (-62135596800)

/-- `t.Truncate(d)`, which rounds down to a multiple of `d` since the zero time. -/
def truncate (t d : Time) : Time := t - (t - zero) % d

/-- The date of a time in UTC. -/
def utcDate (t : Time) : Date := .ofDayNumber (t.unix / 86400)

/-- `t.AddDate(years, months, days)` of a time in UTC.  Months that overflow go to the years, and
days to the months; the time of day stays. -/
def addDate (t : Time) (years months days : Int) : Time :=
  let m := t.utcDate.month - 1 + months
  let clock := t - ofUnix (t.unix / 86400 * 86400)
  ofUnix (dayNumber (t.utcDate.year + years + m / 12) (m % 12 + 1) (t.utcDate.day + days) * 86400) +
    clock

/-- `t.Format("2006-01-02")` of a time in UTC. -/
def formatDate (t : Time) : String := t.utcDate.format

end GigMcp.Time

namespace GigMcp.Store

open GigMcp.Effect GigMcp.System

/-- A day of the activity heatmap. -/
structure HeatmapDay where
  date : String
  count : Nat

structure OverviewStats where
  toolCalls : Nat
  mostUsedApp : String
  heatmap : List HeatmapDay

/-- The buckets of the `days` days up to today, oldest first. -/
def dayBuckets (today : Time) (days : Int) : List HeatmapDay :=
  (List.range days.toNat).map fun i : Nat ↦
    ⟨(today.addDate 0 0 (-(days - 1 - i))).formatDate, 0⟩

/-- The map `idx`: the position of a date's bucket, the last one when a date comes twice. -/
def bucketIndex (buckets : List HeatmapDay) : String → Option Nat :=
  buckets.zipIdx.foldl (fun idx b ↦ Function.update idx b.1.date (some b.2)) fun _ ↦ none

/-- Add a row of the query to the bucket of its day, if there is one. -/
def addRow (idx : String → Option Nat) (heatmap : List HeatmapDay) (row : Int × Nat) :
    List HeatmapDay :=
  match idx (Time.ofUnix row.1).formatDate with
  | some i => heatmap.modify i fun b ↦ { b with count := b.count + row.2 }
  | none => heatmap

/-- The dashboard summary over the trailing `days` window that ends at `t`.  A failing search for
the most used app is ignored. -/
def auditStats (userID : Int64) (days : Int) (t : Time) : Code (Except Err OverviewStats) := do
  let days := if days ≤ 0 then 30 else days
  let today := t.truncate Time.day
  let buckets := dayBuckets today days
  let windowStart := (today.addDate 0 0 (-(days - 1))).unix
  match ← sql (.countEgress userID) with
  | .error e => return .error e
  | .ok toolCalls =>
      let mostUsed ← sql (.mostUsedApp userID)
      match ← sql (.egressByTs userID windowStart) with
      | .error e => return .error e
      | .ok rows =>
          return .ok
            { toolCalls := toolCalls
              mostUsedApp := (mostUsed.toOption.join).getD ""
              heatmap := rows.foldl (addRow (bucketIndex buckets)) buckets }

end GigMcp.Store
