import PushSystem.Lib.Retry
import PushSystem.DataHandler

/-! The two handlers statement by statement (`redisHandler.cpp`, `mysqlHandler.cpp`): the pointer to the
    connection, the connecting, and the tries of a command. What the libraries return is given with each call;
    using a null pointer as a connection leaves nothing to say about what follows. -/

namespace PushSystem
open Redis

/-- A pointer to a connection. -/
inductive Pointer where
  | null
  | live
  deriving DecidableEq

/-! ### `RedisHandler` -/

/-- What `redisConnect` returns: a null pointer, a context with `err` set, or a connected one. -/
inductive RedisConnect where
  | null
  | err
  | ok
  deriving DecidableEq

/-- What the three calls of `redisConnect` in `connect` return, if they are made. -/
structure RedisConnects where
  first : RedisConnect
  second : RedisConnect
  third : RedisConnect
  deriving DecidableEq

def RedisConnects.Succeeds (c : RedisConnects) : Prop := c.first = .ok ∨ c.second = .ok ∨ c.third = .ok

instance decidableRedisConnectsSucceeds (c : RedisConnects) : Decidable c.Succeeds :=
  inferInstanceAs (Decidable (c.first = .ok ∨ c.second = .ok ∨ c.third = .ok))

/-- The arguments of the two overloads of `command`. -/
inductive RedisArgs where
  | text (cmd : String)
  | binary (cmd value : String) (size : Nat)
  deriving DecidableEq

/-- One turn of the loop of `command`: what `redisCommand` returns, and how the reconnecting fares that
    follows a null pointer. -/
structure RedisTry where
  reply : Option Reply
  reconnect : RedisConnects
  deriving DecidableEq

/-- How the library fares in a call of `command`, as far as it is called. -/
structure RedisFate where
  connect : RedisConnects
  first : RedisTry
  second : RedisTry
  third : RedisTry
  deriving DecidableEq

/-- A use of a null pointer: `redisCommand(context, …)` or `context->err`. -/
inductive NullContext where
  | redisCommand (args : RedisArgs)
  | err
  deriving DecidableEq

structure RedisHandler where
  context : Pointer := .null
  reply : Option Reply := none
  deriving DecidableEq

namespace RedisHandler

/-- The loop of `connect`. A context with an error is freed, and the pointer is not read before the next turn
    sets it. -/
def connectLoop (h : RedisHandler) : List RedisConnect → Bool × RedisHandler
  | [] => (false, { h with context := .null })
  | .ok :: _ => (true, { h with context := .live })
  | .null :: rest | .err :: rest => h.connectLoop rest

/-- `RedisHandler::connect` -/
def connect (h : RedisHandler) (c : RedisConnects) : Bool × RedisHandler :=
  if h.context ≠ .null then (true, h) else h.connectLoop [c.first, c.second, c.third]

/-- `RedisHandler::freeConnection` -/
def freeConnection (h : RedisHandler) : RedisHandler := { h with context := .null }

/-- `RedisHandler::RedisHandler` -/
def make (c : RedisConnects) : RedisHandler := (({} : RedisHandler).connect c).2

/-- `redisCommand(context, …)` -/
def redisCommand (h : RedisHandler) (args : RedisArgs) (reply : Option Reply) : Except NullContext (Option Reply) :=
  if h.context = .null then .error (.redisCommand args) else .ok reply

/-- `context->err` in the log line. -/
def readErr (h : RedisHandler) : Except NullContext Unit := if h.context = .null then .error .err else .ok ()

/-- One turn of the loop of `command`: what it returns, if it does. -/
def attempt (args : RedisArgs) (t : RedisTry) (h : RedisHandler) :
    Except NullContext (Option (Option Reply) × RedisHandler) := do
  let reply ← h.redisCommand args t.reply
  let h := { h with reply }
  match reply with
  | none =>
    h.readErr
    return (none, (h.freeConnection.connect t.reconnect).2)
  | some .error => return (none, h)
  | some reply => return (some (some reply), h)

/-- The body that the two overloads of `RedisHandler::command` share. -/
def commandWith (args : RedisArgs) (f : RedisFate) (h : RedisHandler) : Except NullContext (Option Reply × RedisHandler) :=
  let (connected, h) := if h.context = .null then h.connect f.connect else (true, h)
  if connected then Retry.loop (attempt args) none [f.first, f.second, f.third] h else .ok (none, h)

/-- `RedisHandler::command(cmd)` -/
def commandText (cmd : String) : RedisFate → RedisHandler → Except NullContext (Option Reply × RedisHandler) :=
  commandWith (.text cmd)

/-- `RedisHandler::command(cmd, value, size)` -/
def commandBinary (cmd value : String) (size : Nat) :
    RedisFate → RedisHandler → Except NullContext (Option Reply × RedisHandler) := commandWith (.binary cmd value size)

/-- A call of one of the overloads. -/
def call (x : RedisArgs × RedisFate) : RedisHandler → Except NullContext (Option Reply × RedisHandler) :=
  match x.1 with
  | .text cmd => commandText cmd x.2
  | .binary cmd value size => commandBinary cmd value size x.2

end RedisHandler

/-! ### `MysqlHandler` -/

/-- How `connect` fares: `mysql_init` returns a null pointer, `mysql_real_connect` does, or neither. -/
inductive MysqlConnect where
  | initFails
  | connectFails
  | ok
  deriving DecidableEq

/-- One turn of the loop of `command`: whether `mysql_query` succeeds, whether `mysql_use_result` then gives a
    result set, and how the reconnecting fares otherwise. -/
structure MysqlTry where
  query : Bool
  hasResult : Bool
  reconnect : MysqlConnect
  deriving DecidableEq

/-- How the library fares in a call of `command`, as far as it is called. -/
structure MysqlFate where
  cmd : String
  first : MysqlTry
  second : MysqlTry
  third : MysqlTry
  deriving DecidableEq

/-- A call with a null pointer as the connection. -/
inductive NullConnection where
  | mysqlError
  | mysqlQuery (cmd : String)
  | mysqlUseResult
  deriving DecidableEq

structure MysqlHandler where
  connection : Pointer := .null
  result : Bool := false
  deriving DecidableEq

namespace MysqlHandler

/-- `mysql_error(connection)` in a log line. -/
def mysqlError (h : MysqlHandler) : Except NullConnection Unit :=
  if h.connection = .null then .error .mysqlError else .ok ()

def mysqlQuery (h : MysqlHandler) (cmd : String) (ok : Bool) : Except NullConnection Bool :=
  if h.connection = .null then .error (.mysqlQuery cmd) else .ok ok

def mysqlUseResult (h : MysqlHandler) (hasResult : Bool) : Except NullConnection Bool :=
  if h.connection = .null then .error .mysqlUseResult else .ok hasResult

/-- `MysqlHandler::connect`. The handle is what `mysql_init` and then `mysql_real_connect` returned. -/
def connect (h : MysqlHandler) (c : MysqlConnect) : Except NullConnection (Bool × MysqlHandler) :=
  if h.connection ≠ .null then .ok (true, h)
  else
    match c with
    | .initFails | .connectFails => do
      let h := { h with connection := .null }
      h.mysqlError
      return (false, h)
    | .ok => .ok (true, { h with connection := .live })

/-- `MysqlHandler::freeConnection` -/
def freeConnection (h : MysqlHandler) : MysqlHandler := { h with connection := .null }

/-- `MysqlHandler::MysqlHandler` -/
def make (c : MysqlConnect) : Except NullConnection MysqlHandler := do
  let (_, h) ← ({} : MysqlHandler).connect c
  return h

/-- One turn of the loop of `command`: what it returns, if it does. -/
def attempt (cmd : String) (t : MysqlTry) (h : MysqlHandler) : Except NullConnection (Option Bool × MysqlHandler) := do
  let ok ← h.mysqlQuery cmd t.query
  if ok then
    let result ← h.mysqlUseResult t.hasResult
    return (some true, { h with result })
  else
    h.mysqlError
    let (_, h) ← h.freeConnection.connect t.reconnect
    return (none, h)

/-- `MysqlHandler::command` -/
def call (f : MysqlFate) (h : MysqlHandler) : Except NullConnection (Bool × MysqlHandler) :=
  Retry.loop (attempt f.cmd) false [f.first, f.second, f.third] h

end MysqlHandler

end PushSystem
