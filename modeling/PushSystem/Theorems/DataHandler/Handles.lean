import PushSystem.Handlers

/-! When the handlers use a connection that is not there. `RedisHandler::command` tests its pointer before the
    loop only, and a reconnecting inside the loop that fails leaves it null; `MysqlHandler::connect` asks for
    the error of the null pointer it has just stored. -/

namespace PushSystem
open Redis

/-! ### Redis -/

namespace RedisTry

/-- The loop goes on after the try. -/
def Retried (t : RedisTry) : Prop := t.reply = none ∨ t.reply = some .error

instance decidableRetried (t : RedisTry) : Decidable t.Retried :=
  inferInstanceAs (Decidable (t.reply = none ∨ t.reply = some .error))

/-- A null pointer is followed by a reconnecting that succeeds. -/
def Reconnects (t : RedisTry) : Prop := t.reply = none → t.reconnect.Succeeds

instance decidableReconnects (t : RedisTry) : Decidable t.Reconnects :=
  inferInstanceAs (Decidable (t.reply = none → t.reconnect.Succeeds))

/-- The handler after the try. -/
def leaves (t : RedisTry) : RedisHandler := ⟨if t.Reconnects then .live else .null, t.reply⟩

end RedisTry

/-- The first two tries leave a connection to the try that follows them. -/
def RedisFate.Reconnects (f : RedisFate) : Prop :=
  f.first.Retried → f.first.Reconnects ∧ (f.second.Retried → f.second.Reconnects)

/-- The server is away: nothing connects and no command is answered. -/
def RedisFate.Unreachable (f : RedisFate) : Prop :=
  ¬f.connect.Succeeds ∧ ∀ t ∈ [f.first, f.second, f.third], t.reply = none ∧ ¬t.reconnect.Succeeds

namespace RedisHandler
variable {h : RedisHandler} {args : RedisArgs}

theorem connectLoop_eq (h : RedisHandler) (c : RedisConnects) :
    h.connectLoop [c.first, c.second, c.third] =
      (decide c.Succeeds, { h with context := if c.Succeeds then .live else .null }) := by
  obtain ⟨first, second, third⟩ := c
  cases first <;> cases second <;> cases third <;> simp [connectLoop, RedisConnects.Succeeds]

/-- Without a connection `connect` opens one or leaves none. -/
theorem connect_of_null (hc : h.context = .null) (c : RedisConnects) :
    h.connect c = (decide c.Succeeds, { h with context := if c.Succeeds then .live else .null }) := by
  rw [connect, if_neg (not_not.mpr hc), connectLoop_eq]

section Attempt
variable {t : RedisTry}

theorem attempt_of_null (hc : h.context = .null) : attempt args t h = .error (.redisCommand args) := by
  simp only [attempt, redisCommand, hc, ↓reduceIte, bind_pure_comp]
  rfl

theorem attempt_of_retried (hc : h.context = .live) (ht : t.Retried) : attempt args t h = .ok (none, t.leaves) := by
  obtain ⟨reply, reconnect⟩ := t
  rcases ht with hreply | hreply
  · obtain rfl : reply = none := hreply
    have hconnect := connect_of_null (h := freeConnection ⟨h.context, none⟩) rfl reconnect
    simp only [attempt, redisCommand, readErr, hc, reduceCtorEq, ↓reduceIte, bind_pure_comp, Except.map_ok] at hconnect ⊢
    show Except.ok (none, (RedisHandler.connect _ reconnect).2) = _
    rw [hconnect]
    simp [RedisTry.leaves, RedisTry.Reconnects, freeConnection]
  · obtain rfl : reply = some .error := hreply
    simp only [attempt, redisCommand, hc, reduceCtorEq, ↓reduceIte, bind_pure_comp, RedisTry.leaves,
      RedisTry.Reconnects, IsEmpty.forall_iff]
    rfl

theorem attempt_of_not_retried (hc : h.context = .live) (ht : ¬t.Retried) :
    attempt args t h = .ok (some t.reply, { h with reply := t.reply }) := by
  obtain ⟨reply, reconnect⟩ := t
  cases reply with
  | none => exact absurd (Or.inl rfl) ht
  | some reply =>
    cases reply with
    | error => exact absurd (Or.inr rfl) ht
    | _ =>
      simp only [attempt, redisCommand, hc, reduceCtorEq, ↓reduceIte, bind_pure_comp]
      rfl

end Attempt

/-- A try leaves a connection to the next one exactly if it reconnects where it has to. -/
theorem defined_loop_cons {t : RedisTry} {ts : List RedisTry} (hc : h.context = .live) :
    Retry.Defined (Retry.loop (attempt args) none (t :: ts) h) ↔
      (t.Retried → Retry.Defined (Retry.loop (attempt args) none ts t.leaves)) := by
  by_cases ht : t.Retried
  · rw [Retry.loop_of_next (attempt_of_retried hc ht)]
    exact ⟨fun h _ => h, fun h => h ht⟩
  · rw [Retry.loop_of_ret (attempt_of_not_retried hc ht)]
    exact ⟨fun _ h => absurd h ht, fun _ => Retry.defined_ok _⟩

theorem defined_loop_leaves {t t' : RedisTry} {ts : List RedisTry} :
    Retry.Defined (Retry.loop (attempt args) none (t' :: ts) t.leaves) ↔
      t.Reconnects ∧ (t'.Retried → Retry.Defined (Retry.loop (attempt args) none ts t'.leaves)) := by
  by_cases ht : t.Reconnects
  · rw [defined_loop_cons (if_pos ht)]
    exact ⟨fun h => ⟨ht, h⟩, fun h => h.2⟩
  · rw [Retry.loop_of_error (attempt_of_null (if_neg ht))]
    exact ⟨fun h => absurd h (Retry.not_defined_error _), fun h => absurd h.1 ht⟩

/-- The loop needs a connection at the start, and after its first two tries. -/
theorem defined_loop_iff {f : RedisFate} (hc : h.context = .live) :
    Retry.Defined (Retry.loop (attempt args) none [f.first, f.second, f.third] h) ↔ f.Reconnects := by
  have hend : Retry.Defined (Retry.loop (attempt args) none [] f.third.leaves) := Retry.defined_ok _
  rw [defined_loop_cons hc, defined_loop_leaves, defined_loop_leaves]
  constructor
  · exact fun h h₁ => ⟨(h h₁).1, fun h₂ => ((h h₁).2 h₂).1⟩
  · exact fun h h₁ => ⟨(h h₁).1, fun h₂ => ⟨(h h₁).2 h₂, fun _ => hend⟩⟩

/-- There is a connection when the loop starts. -/
def Connected (h : RedisHandler) (f : RedisFate) : Prop := h.context = .live ∨ f.connect.Succeeds

theorem pointer_cases (p : Pointer) : p = .null ∨ p = .live := by
  cases p with
  | null => exact Or.inl rfl
  | live => exact Or.inr rfl

theorem commandWith_of_connected {f : RedisFate} (hc : h.Connected f) :
    commandWith args f h = Retry.loop (attempt args) none [f.first, f.second, f.third] { h with context := .live } := by
  rcases pointer_cases h.context with hnull | hlive
  · have hconnect : f.connect.Succeeds := by
      rcases hc with hlive | hconnect
      · rw [hnull] at hlive
        cases hlive
      · exact hconnect
    simp [commandWith, hnull, connect_of_null hnull, hconnect]
  · have : ({ h with context := .live } : RedisHandler) = h := by rw [← hlive]
    simp [commandWith, hlive, this]

theorem commandWith_of_not_connected {f : RedisFate} (hc : ¬h.Connected f) :
    commandWith args f h = .ok (none, { h with context := .null }) := by
  have hnull : h.context = .null := (pointer_cases h.context).resolve_right fun hlive => hc (Or.inl hlive)
  have hconnect : ¬f.connect.Succeeds := fun hs => hc (Or.inr hs)
  simp [commandWith, hnull, connect_of_null hnull, hconnect]

theorem defined_commandWith_iff {f : RedisFate} :
    Retry.Defined (commandWith args f h) ↔ (h.Connected f → f.Reconnects) := by
  by_cases hc : h.Connected f
  · rw [commandWith_of_connected hc, defined_loop_iff rfl]
    exact ⟨fun h _ => h, fun h => h hc⟩
  · rw [commandWith_of_not_connected hc]
    exact ⟨fun _ h => absurd h hc, fun _ => Retry.defined_ok _⟩

/-! ### What a command returns -/

/-- What the tries from number `n` on lead to. -/
def results (n : Nat) : List (Option Reply) → Option Reply
  | [] => none
  | r :: rest => (command n r).getD (results (n + 1) rest)

/-- The loop returns what the replies of its tries lead to. -/
theorem loop_eq_results {ts : List RedisTry} {n : Nat} {r : Option Reply} {h' : RedisHandler}
    (hlen : n + ts.length = tryCount) (hr : Retry.loop (attempt args) none ts h = .ok (r, h')) :
    r = results n (ts.map (·.reply)) := by
  induction ts generalizing n h with
  | nil => exact (congrArg Prod.fst (Except.ok.inj hr)).symm
  | cons t ts ih =>
    have hlen' : n + 1 + ts.length = tryCount := by
      rw [List.length_cons] at hlen
      omega
    rcases pointer_cases h.context with hnull | hlive
    · rw [Retry.loop_of_error (attempt_of_null hnull)] at hr
      cases hr
    · rw [List.map_cons, results]
      by_cases ht : t.Retried
      · rw [Retry.loop_of_next (attempt_of_retried hlive ht)] at hr
        have hcommand : command n t.reply = if n + 1 < tryCount then none else some none := by
          rcases ht with ht | ht <;> rw [ht] <;> rfl
        have hrest := ih hlen' hr
        rw [hcommand]
        split
        next => exact hrest
        next hlast =>
          obtain rfl : ts = [] := List.length_eq_zero_iff.mp (by omega)
          exact hrest
      · rw [Retry.loop_of_ret (attempt_of_not_retried hlive ht)] at hr
        have hcommand : command n t.reply = some t.reply := by
          cases hreply : t.reply with
          | none => exact absurd (Or.inl hreply) ht
          | some reply =>
            cases reply with
            | error => exact absurd (Or.inr hreply) ht
            | _ => rfl
        rw [hcommand]
        exact (congrArg Prod.fst (Except.ok.inj hr)).symm

theorem commandWith_eq_results {f : RedisFate} {r : Option Reply} {h' : RedisHandler}
    (hr : commandWith args f h = .ok (r, h')) :
    r = none ∨ r = results 0 [f.first.reply, f.second.reply, f.third.reply] := by
  by_cases hc : h.Connected f
  · rw [commandWith_of_connected hc] at hr
    exact Or.inr (loop_eq_results rfl hr)
  · rw [commandWith_of_not_connected hc] at hr
    exact Or.inl (congrArg Prod.fst (Except.ok.inj hr)).symm

theorem commandWith_of_unreachable {f : RedisFate} {r : Option Reply} {h' : RedisHandler} (hf : f.Unreachable)
    (hr : commandWith args f h = .ok (r, h')) : r = none := by
  rcases commandWith_eq_results hr with hr | hr
  · exact hr
  · rw [hr, (hf.2 f.first (by simp)).1, (hf.2 f.second (by simp)).1, (hf.2 f.third (by simp)).1]
    rfl

/-! ### Sequences of commands -/

theorem call_eq (x : RedisArgs × RedisFate) : call x = commandWith x.1 x.2 := by
  obtain ⟨args, f⟩ := x
  cases args <;> rfl

/-- The call uses no null pointer, and returns one if the server is away. -/
def Safe (x : RedisArgs × RedisFate) (h : RedisHandler) : Prop :=
  ∃ r h', call x h = .ok (r, h') ∧ (x.2.Unreachable → r = none)

/-- A call uses no null pointer exactly if its first two tries reconnect where they have to. -/
theorem safe_iff (x : RedisArgs × RedisFate) (h : RedisHandler) : Safe x h ↔ (h.Connected x.2 → x.2.Reconnects) := by
  have hdefined : Retry.Defined (commandWith x.1 x.2 h) ↔ (h.Connected x.2 → x.2.Reconnects) := defined_commandWith_iff
  rw [← hdefined, Safe, call_eq]
  constructor
  · rintro ⟨r, h', hr, -⟩
    exact ⟨_, hr⟩
  · rintro ⟨⟨r, h'⟩, hr⟩
    exact ⟨r, h', hr, fun hf => commandWith_of_unreachable hf hr⟩

/-- Over every sequence of calls of both overloads, each call is safe exactly if each call that comes to its loop
    reconnects where it has to. -/
theorem redis_never_null_iff (start : RedisConnects) (calls : List (RedisArgs × RedisFate)) :
    Retry.Each call Safe calls (make start) ↔
      Retry.Each call (fun x h => h.Connected x.2 → x.2.Reconnects) calls (make start) :=
  Retry.each_congr safe_iff

/-- The server is away in the middle of a session: the command gets no answer and no connection. -/
def lostServer : RedisFate :=
  ⟨⟨.err, .err, .err⟩, ⟨none, ⟨.err, .err, .err⟩⟩, ⟨none, ⟨.err, .err, .err⟩⟩, ⟨none, ⟨.err, .err, .err⟩⟩⟩

/-- The second try of a command is made with a null pointer. -/
theorem redis_null_used : ¬∀ (start : RedisConnects) (calls : List (RedisArgs × RedisFate)),
    Retry.Each call Safe calls (make start) := by
  intro hall
  obtain ⟨r, h', hr, -⟩ := hall ⟨.ok, .ok, .ok⟩ [(.text "EXISTS TMP_USER_INFO_KEY", lostServer)] 0 _ _ rfl rfl
  have hlost : call (.text "EXISTS TMP_USER_INFO_KEY", lostServer) (make ⟨.ok, .ok, .ok⟩) =
      .error (.redisCommand (.text "EXISTS TMP_USER_INFO_KEY")) := by rfl
  rw [hlost] at hr
  cases hr

end RedisHandler

/-! ### MySQL -/

namespace MysqlFate
variable (f : MysqlFate)

/-- Every query that fails is followed by a reconnecting that succeeds. -/
def Reconnects : Prop :=
  f.first.query = false → f.first.reconnect = .ok ∧
    (f.second.query = false → f.second.reconnect = .ok ∧ (f.third.query = false → f.third.reconnect = .ok))

/-- The server is away: no query succeeds and nothing connects. -/
def Unreachable : Prop := ∀ t ∈ [f.first, f.second, f.third], t.query = false ∧ t.reconnect ≠ .ok

end MysqlFate

namespace MysqlHandler
variable {h : MysqlHandler} {cmd : String}

/-- `connect` without a connection: what fails stores a null pointer, and then asks for its error. -/
theorem connect_of_null (hc : h.connection = .null) (c : MysqlConnect) :
    h.connect c = if c = .ok then .ok (true, { h with connection := .live }) else .error .mysqlError := by
  cases c with
  | ok => simp [connect, hc]
  | initFails | connectFails =>
    simp [connect, hc, mysqlError]

section Attempt
variable {t : MysqlTry}

theorem attempt_of_query (hc : h.connection = .live) (hq : t.query = true) :
    attempt cmd t h = .ok (some true, { h with result := t.hasResult }) := by
  simp only [attempt, mysqlQuery, mysqlUseResult, hc, hq, reduceCtorEq, ↓reduceIte, bind_pure_comp, Except.map_ok]
  rfl

theorem attempt_of_reconnect (hc : h.connection = .live) (hq : t.query = false) (ht : t.reconnect = .ok) :
    attempt cmd t h = .ok (none, h) := by
  have hlive : ({ h with connection := .live } : MysqlHandler) = h := by rw [← hc]
  simp only [attempt, mysqlQuery, mysqlError, hc, hq, ht, reduceCtorEq, ↓reduceIte, bind_pure_comp,
    connect_of_null (h := h.freeConnection) rfl, Except.map_ok]
  show Except.ok (none, ({ h with connection := .live } : MysqlHandler)) = _
  rw [hlive]

theorem attempt_of_lost (hc : h.connection = .live) (hq : t.query = false) (ht : t.reconnect ≠ .ok) :
    attempt cmd t h = .error .mysqlError := by
  simp only [attempt, mysqlQuery, mysqlError, hc, hq, ht, reduceCtorEq, ↓reduceIte, bind_pure_comp,
    connect_of_null (h := h.freeConnection) rfl, Except.map_error]
  rfl

end Attempt

theorem defined_loop_cons {t : MysqlTry} {ts : List MysqlTry} (hc : h.connection = .live) :
    Retry.Defined (Retry.loop (attempt cmd) false (t :: ts) h) ↔
      (t.query = false → t.reconnect = .ok ∧ Retry.Defined (Retry.loop (attempt cmd) false ts h)) := by
  cases hq : t.query with
  | true =>
    rw [Retry.loop_of_ret (attempt_of_query hc hq)]
    exact ⟨fun _ hf => absurd hf.symm Bool.false_ne_true, fun _ => Retry.defined_ok _⟩
  | false =>
    by_cases ht : t.reconnect = .ok
    · rw [Retry.loop_of_next (attempt_of_reconnect hc hq ht)]
      exact ⟨fun h _ => ⟨ht, h⟩, fun h => (h rfl).2⟩
    · rw [Retry.loop_of_error (attempt_of_lost hc hq ht)]
      exact ⟨fun h => absurd h (Retry.not_defined_error _), fun h => absurd (h rfl).1 ht⟩

theorem defined_call_iff {f : MysqlFate} (hc : h.connection = .live) : Retry.Defined (call f h) ↔ f.Reconnects := by
  have hend : Retry.Defined (Retry.loop (attempt f.cmd) false [] h) := Retry.defined_ok _
  rw [call, defined_loop_cons hc, defined_loop_cons hc, defined_loop_cons hc]
  unfold MysqlFate.Reconnects
  simp only [hend, and_true]

/-- A call keeps the connection. -/
theorem live_of_call {f : MysqlFate} {r : Bool} {h' : MysqlHandler} (hc : h.connection = .live)
    (hr : call f h = .ok (r, h')) : h'.connection = .live := by
  have hloop : ∀ (ts : List MysqlTry), Retry.loop (attempt f.cmd) false ts h = .ok (r, h') → h'.connection = .live := by
    intro ts
    induction ts with
    | nil => exact fun hr => (congrArg (·.2.connection) (Except.ok.inj hr)).symm.trans hc
    | cons t ts ih =>
      intro hr
      cases hq : t.query with
      | true =>
        rw [Retry.loop_of_ret (attempt_of_query hc hq)] at hr
        exact (congrArg (·.2.connection) (Except.ok.inj hr)).symm.trans hc
      | false =>
        by_cases ht : t.reconnect = .ok
        · rw [Retry.loop_of_next (attempt_of_reconnect hc hq ht)] at hr
          exact ih hr
        · rw [Retry.loop_of_error (attempt_of_lost hc hq ht)] at hr
          cases hr
  exact hloop _ hr

/-- The call uses no null pointer, and returns false if the server is away. -/
def Safe (f : MysqlFate) (h : MysqlHandler) : Prop :=
  ∃ r h', call f h = .ok (r, h') ∧ (f.Unreachable → r = false)

/-- With a connection, a call uses no null pointer exactly if no reconnecting fails. -/
theorem safe_iff {f : MysqlFate} (hc : h.connection = .live) : Safe f h ↔ f.Reconnects := by
  rw [← defined_call_iff hc]
  constructor
  · rintro ⟨r, h', hr, -⟩
    exact ⟨_, hr⟩
  · rintro ⟨⟨r, h'⟩, hr⟩
    refine ⟨r, h', hr, fun hf => ?_⟩
    -- The reconnecting after the first try fails.
    have hlost := hf f.first (by simp)
    rw [call, Retry.loop_of_error (attempt_of_lost hc hlost.1 hlost.2)] at hr
    cases hr

theorem each_safe_iff {calls : List MysqlFate} (hc : h.connection = .live) :
    Retry.Each call Safe calls h ↔ ∀ f ∈ calls, f.Reconnects := by
  induction calls generalizing h with
  | nil => exact ⟨fun _ f hf => (List.not_mem_nil hf).elim, fun _ k c t hk => by cases hk⟩
  | cons f calls ih =>
    rw [Retry.each_cons, safe_iff hc, List.forall_mem_cons]
    constructor
    · rintro ⟨hf, hrest⟩
      obtain ⟨⟨r, h'⟩, hr⟩ := (defined_call_iff hc).mpr hf
      exact ⟨hf, (ih (live_of_call hc hr)).mp (hrest r h' hr)⟩
    · rintro ⟨hf, hrest⟩
      exact ⟨hf, fun r h' hr => (ih (live_of_call hc hr)).mpr hrest⟩

/-- Over every sequence of commands, the constructor and each command use no null pointer exactly if the
    constructor connects and no reconnecting after a failed query fails. -/
theorem mysql_never_null_iff (start : MysqlConnect) (calls : List MysqlFate) :
    (∃ h, make start = .ok h ∧ Retry.Each call Safe calls h) ↔ start = .ok ∧ ∀ f ∈ calls, f.Reconnects := by
  have hmake : make start = if start = .ok then .ok { connection := .live } else .error .mysqlError := by
    rw [make, connect_of_null rfl]
    cases start <;> rfl
  rw [hmake]
  by_cases hstart : start = .ok
  · rw [if_pos hstart]
    constructor
    · rintro ⟨h, hh, heach⟩
      obtain rfl := Except.ok.inj hh
      exact ⟨hstart, (each_safe_iff rfl).mp heach⟩
    · rintro ⟨-, hall⟩
      exact ⟨_, rfl, (each_safe_iff rfl).mpr hall⟩
  · rw [if_neg hstart]
    constructor
    · rintro ⟨h, hh, -⟩
      cases hh
    · rintro ⟨hok, -⟩
      exact absurd hok hstart

/-- A constructor that cannot connect asks for the error of a null pointer. -/
theorem mysql_null_used : ¬∀ (start : MysqlConnect) (calls : List MysqlFate),
    ∃ h, make start = .ok h ∧ Retry.Each call Safe calls h := by
  intro hall
  obtain ⟨h, hh, -⟩ := hall .connectFails []
  have hlost : make .connectFails = .error .mysqlError := by rfl
  rw [hlost] at hh
  cases hh

/-- After a failed query the reconnecting does the same. -/
example : call ⟨"SELECT 1", ⟨false, false, .initFails⟩, ⟨true, true, .ok⟩, ⟨true, true, .ok⟩⟩ { connection := .live } =
    .error .mysqlError := by rfl

end MysqlHandler

end PushSystem
