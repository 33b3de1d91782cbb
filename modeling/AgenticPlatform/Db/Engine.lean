import AgenticPlatform.Foundation.RowSecurity
import AgenticPlatform.Foundation.Transition
import AgenticPlatform.Identity.Principal

/-!
# Sessions over a pool of connections

`tenant_session` and `system_session` check a connection out at their first statement, run
the body on it and give it back when the transaction ends. Any number of them are open at
once. A body runs statements, commits or rolls back, catches what its statements raise, and
ends or raises at any point; a connection may be lost at any moment. The rows a statement
meets are those its snapshot holds, whatever these are. A SECURITY DEFINER function is
called like any other, but runs as the owner of the tables, whom no policy binds; what the
server itself reads to check keys and references is not part of a statement.
-/
namespace AgenticPlatform.Db
open AgenticPlatform.Foundation AgenticPlatform.Identity

variable {ρ : Type*}

/-! ## Connections -/

/-- The status of the transaction on the server. -/
inductive TxnStatus where
  | idle | active | aborted
deriving DecidableEq

/-- `tenant` is the setting `app.tenant_id`; the savepoints keep what it was. -/
structure Conn where
  txn : TxnStatus
  tenant : Setting Uuid
  savepoints : List (Setting Uuid)

def Conn.new : Conn := ⟨.idle, .initial, []⟩

/-- A statement opens a transaction where none is open. -/
def Conn.begun (c : Conn) : Conn := { c with txn := if c.txn = .idle then .active else c.txn }

/-- ROLLBACK, and COMMIT of an aborted transaction. -/
def Conn.rolledBack (c : Conn) : Conn := ⟨.idle, c.tenant.rollback, []⟩

def Conn.committed (c : Conn) : Conn :=
  if c.txn = .aborted then c.rolledBack else ⟨.idle, c.tenant.commit, []⟩

def Conn.ended (c : Conn) (commit : Bool) : Conn := if commit then c.committed else c.rolledBack

/-! ## Statements of a body -/

inductive Statement (ρ : Type*) where
  /-- Reads or writes tables under row security; what it writes depends on what it sees. -/
  | access (write : List ρ → List ρ)
  /-- Calls a SECURITY DEFINER function: what it reads of the tables, and what it writes. -/
  | definer (select write : List ρ → List ρ)
  | failing
  /-- COMMIT or ROLLBACK as the text of a statement. -/
  | endTransaction (commit : Bool)
  | savepoint
  | rollbackToSavepoint
  | releaseSavepoint
  /-- `set_config('app.tenant_id', value, is_local)`. -/
  | setTenant (value : SettingValue Uuid) (isLocal : Bool)

/-- What a statement observed and touched. -/
structure Touch (ρ : Type*) where
  observed : SettingValue Uuid
  read : List ρ
  written : List ρ
  /-- With the rights of the owner of the tables. -/
  asOwner : Bool

def Touch.rows (t : Touch ρ) : List ρ := t.read ++ t.written

def Conn.savepointOp (c : Conn) : Statement ρ → Conn
  | .savepoint => { c with savepoints := c.tenant :: c.savepoints }
  | .rollbackToSavepoint =>
    match c.savepoints with
    | saved :: _ => { c with tenant := saved, txn := .active }
    | [] => { c with txn := .aborted }
  | .releaseSavepoint =>
    match c.savepoints with
    | _ :: rest => { c with savepoints := rest }
    | [] => { c with txn := .aborted }
  | _ => c

/-- The connection after a statement, and what it touched. In an aborted transaction the
server refuses every statement but those that end it or go back in it. -/
def runStatement (owner : ρ → Uuid) (c : Conn) (rows : List ρ) (st : Statement ρ) :
    Conn × Option (Touch ρ) :=
  match st with
  | .endTransaction commit => (c.ended commit, none)
  | .rollbackToSavepoint => (c.begun.savepointOp st, none)
  | .access write =>
    if c.txn = .aborted then (c, none)
    else
      let read := visible owner c.tenant.current rows
      let written := write read
      if writable owner c.tenant.current written then
        (c.begun, some ⟨c.tenant.current, read, written, false⟩)
      else ({ c with txn := .aborted }, some ⟨c.tenant.current, read, [], false⟩)
  | .definer select write =>
    if c.txn = .aborted then (c, none)
    else (c.begun, some ⟨c.tenant.current, select rows, write (select rows), true⟩)
  | .failing => ({ c with txn := .aborted }, none)
  | .savepoint | .releaseSavepoint => if c.txn = .aborted then (c, none)
    else (c.begun.savepointOp st, none)
  | .setTenant value isLocal =>
    if c.txn = .aborted then (c, none)
    else
      ({ c.begun with tenant := if isLocal then c.tenant.setLocal value
        else c.tenant.setSession value }, none)

/-! ## Sessions -/

inductive Scope where
  | tenant (id : Uuid)
  | system
deriving DecidableEq

/-- Where a use of a session stands. -/
inductive Phase where
  /-- Before its `set_config`. -/
  | entering
  | body
  /-- The body ended: `session.commit()` comes next. -/
  | leaving
  /-- Something raised: `session.rollback()` comes next. -/
  | failing
  /-- `session.close()` comes next. -/
  | closing
deriving DecidableEq

/-- `ended` says that a transaction of the body has already been ended in it. -/
structure Use where
  scope : Scope
  phase : Phase
  conn : Option Conn
  ended : Bool

/-- A statement of a body; the log is a ghost. -/
structure Access (ρ : Type*) where
  scope : Scope
  ended : Bool
  touch : Touch ρ

structure PoolState (ρ : Type*) where
  idle : List Conn
  uses : Nat → Option Use
  log : List (Access ρ)

def PoolState.initial : PoolState ρ := ⟨[], fun _ => none, []⟩

/-- What happens in one use of a session. -/
inductive UseAct (ρ : Type*) where
  /-- Takes an idle connection out of the pool. -/
  | checkout (i : Nat)
  | connect
  /-- The `set_config` of the session itself, which may fail. -/
  | configure (ok : Bool)
  | run (st : Statement ρ) (rows : List ρ)
  /-- `session.commit()` or `session.rollback()` in the body. -/
  | endTxn (commit : Bool)
  | leave
  | raise
  /-- What `except Exception` does not catch. -/
  | interrupt
  | commit (ok : Bool)
  | rollback
  | close
  /-- The server or the network drops the connection. -/
  | lose

inductive PoolAct (ρ : Type*) where
  | openUse (n : Nat) (scope : Scope)
  | use (n : Nat) (a : UseAct ρ)
  /-- The pool drops an idle connection. -/
  | discard (i : Nat)

section
variable (s : PoolState ρ)

def PoolState.setUse (n : Nat) (u : Option Use) : PoolState ρ :=
  { s with uses := Function.update s.uses n u }

def PoolState.record (u : Use) (touch : Option (Touch ρ)) : PoolState ρ :=
  { s with log := (touch.map (fun t => (⟨u.scope, u.ended, t⟩ : Access ρ))).toList ++ s.log }

/-- The transaction ends on the connection that the use holds, if any, and the connection
goes back to the pool. -/
def PoolState.giveBack (n : Nat) (u : Use) (commit : Bool) : PoolState ρ :=
  { s with
    idle := s.idle ++ (u.conn.map (fun conn => conn.ended commit)).toList
    uses := Function.update s.uses n (some { u with conn := none }) }

end

/-- `set_config(..., true)`: of the tenant, or of a reason that no policy reads. -/
def configured (conn : Conn) : Scope → Conn
  | .tenant id => { conn.begun with tenant := conn.tenant.setLocal (.of id) }
  | .system => conn.begun

def Use.ran (u : Use) (conn : Conn) (st : Statement ρ) : Use :=
  { u with
    conn := some conn
    ended := u.ended || match st with | .endTransaction _ => true | _ => false }

/-- A use takes a connection where it needs one. -/
def Use.wantsConn (u : Use) : Bool := u.conn.isNone && (u.phase = .entering || u.phase = .body)

def useStep (owner : ρ → Uuid) (s : PoolState ρ) (n : Nat) (u : Use) :
    UseAct ρ → Option (PoolState ρ)
  | .checkout i =>
    if u.wantsConn then
      (s.idle[i]?).map (fun conn =>
        { s with idle := s.idle.eraseIdx i }.setUse n (some { u with conn := some conn }))
    else none
  | .connect => if u.wantsConn then some (s.setUse n (some { u with conn := some .new })) else none
  | .configure ok =>
    if u.phase = .entering then
      u.conn.map (fun conn =>
        if ok then s.setUse n
          (some { u with phase := .body, conn := some (configured conn u.scope) })
        else s.setUse n
          (some { u with phase := .failing, conn := some { conn with txn := .aborted } }))
    else none
  | .run st rows =>
    if u.phase = .body then
      u.conn.map (fun conn =>
        let (conn', touch) := runStatement owner conn rows st
        (s.record u touch).setUse n (some (u.ran conn' st)))
    else none
  | .endTxn commit =>
    if u.phase = .body then some (s.giveBack n { u with ended := true } commit) else none
  | .leave => if u.phase = .body then some (s.setUse n (some { u with phase := .leaving }))
    else none
  | .raise => if u.phase = .entering ∨
    u.phase = .body then some (s.setUse n (some { u with phase := .failing })) else none
  | .interrupt => some (s.setUse n (some { u with phase := .closing }))
  | .commit ok =>
    if u.phase = .leaving then
      if ok then some (s.giveBack n { u with phase := .closing } true)
      else some (s.setUse n (some { u with phase := .failing, conn := u.conn.map Conn.rolledBack }))
    else none
  | .rollback =>
    if u.phase = .failing then some (s.giveBack n { u with phase := .closing } false) else none
  | .close => if u.phase = .closing then some ((s.giveBack n u false).setUse n none) else none
  | .lose => some (s.setUse n (some { u with conn := none }))

def poolStep (owner : ρ → Uuid) (s : PoolState ρ) : PoolAct ρ → Option (PoolState ρ)
  | .openUse n scope =>
    if (s.uses n).isNone then some (s.setUse n (some ⟨scope, .entering, none, false⟩)) else none
  | .use n a => (s.uses n).bind (fun u => useStep owner s n u a)
  | .discard i => some { s with idle := s.idle.eraseIdx i }

/-- No body sets the tenant itself. -/
def PoolAct.keepsTenant : PoolAct ρ → Bool
  | .use _ (.run (.setTenant _ _) _) => false
  | _ => true

end AgenticPlatform.Db
