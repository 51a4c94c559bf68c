import PushSystem.Fields
import PushSystem.Theorems.UserInfoUpdate.Windows

/-! The updater releases every reply and every result set before the next one, as long as no error reply is tried
    again and no window is given up. -/

namespace PushSystem
open Redis Prog

/-! ### Tries -/

/-- The commands whose reply the updater releases without looking at the answer. -/
def Unread (cmd : RedisCommand) : Prop := cmd = .del tmpUserInfoKey ∨ ∃ tag, cmd = .del (genDiffKey (userInfoKey tag))

/-- The command is sent while the result set of a window is held. -/
def SentInWindow : RedisCommand → Prop
  | .setrange _ _ _ => True
  | _ => False

/-- An error reply would be overwritten by the next try, and the last one by the next command unless it is released
    all the same; a window that is given up leaves its result set behind. -/
def HandlerOp.Releases : HandlerOp → Nat → Fields → HandlerOutcome → Prop
  | .updater (.redis cmd), n, _, .redisCommand (some .error) => tryCount ≤ n + 1 ∧ Unread cmd
  | .updater (.redis cmd), n, s, .redisCommand none => tryCount ≤ n + 1 → SentInWindow cmd → s.result.held = false
  | .updater (.redis cmd), _, s, .noConnection => SentInWindow cmd → s.result.held = false
  | _, _, _, _ => True

/-- Nothing has been overwritten. -/
def Fields.Unharmed (s : Fields) : Prop := s.reply.overwritten = false ∧ s.result.overwritten = false

/-- What the fields hold when nothing has been overwritten. -/
def fieldsHolding (reply result : Bool) : Fields := ⟨⟨reply, false⟩, ⟨result, false⟩⟩

/-- The updater's process runs alone. -/
def NoOthers (_ _ : Fields) : Prop := False

/-- The calls of `UpdateUserInfo` that leave nothing behind. -/
abbrev releasingTry : Machine UpdaterOp UpdaterOp.Ret Fields := fun o => handlerTry HandlerOp.Releases (.updater o)

/-- What a program of the updater comes to if its tries leave nothing behind. -/
abbrev wpUpdater {α : Type} : UpdaterProg α → (α → Fields → Prop) → Fields → Prop := wp releasingTry NoOthers Fields.Unharmed

abbrev wpProcess {α : Type} : HandlerProg α → (α → Fields → Prop) → Fields → Prop :=
  wp (handlerTry HandlerOp.Releases) NoOthers Fields.Unharmed

section Rules
variable {α : Type} {Q : α → Fields → Prop} {reply result : Bool}

theorem unharmed_fieldsHolding : (fieldsHolding reply result).Unharmed := ⟨rfl, rfl⟩

/-- A try that leaves nothing behind: it is to be tried again, is given up, or returns a reply; an error reply is
    the last one, of a command whose reply is released all the same. -/
theorem redis_released {cmd : RedisCommand} {n : Nat} {r : Option (Option Reply)} {t : Fields}
    (h : handlerTry HandlerOp.Releases (.updater (.redis cmd)) n (fieldsHolding false result) r t) :
    (r = none ∧ t = fieldsHolding false result) ∨
    (r = some none ∧ t = fieldsHolding false result ∧ (SentInWindow cmd → result = false)) ∨
    (r = some none ∧ t = fieldsHolding true result ∧ Unread cmd) ∨
    ∃ reply, r = some (some reply) ∧ t = fieldsHolding true result := by
  obtain ⟨outcome, hok, h⟩ := h
  cases outcome with
  | noConnection =>
    simp only [HandlerOp.attempt] at h
    split at h
    · obtain ⟨rfl, rfl⟩ := Prod.mk.inj (Option.some.inj h)
      exact Or.inr (Or.inl ⟨rfl, rfl, hok⟩)
    · cases h
  | redisCommand reply =>
    obtain ⟨rfl, rfl⟩ := Prod.mk.inj (Option.some.inj h)
    cases reply with
    | none =>
      by_cases hn : n + 1 < tryCount
      · exact Or.inl ⟨if_pos hn, rfl⟩
      · exact Or.inr (Or.inl ⟨if_neg hn, rfl, hok (Nat.le_of_not_lt hn)⟩)
    | some reply =>
      cases reply with
      | error =>
        obtain ⟨hn, hread⟩ := hok
        exact Or.inr (Or.inr (Or.inl ⟨if_neg (Nat.not_lt_of_le hn), rfl, hread⟩))
      | _ => exact Or.inr (Or.inr (Or.inr ⟨_, rfl, rfl⟩))
  | _ => cases h

theorem wp_redis_released {cmd : RedisCommand} {k : Option Reply → UpdaterProg α} (hread : ¬Unread cmd)
    (hsome : ∀ r, wpUpdater (k (some r)) Q (fieldsHolding true result))
    (hnone : (SentInWindow cmd → result = false) →
      wpUpdater (k none) Q (fieldsHolding false result)) :
    wpUpdater (.call (.redis cmd) k) Q (fieldsHolding false result) := by
  refine wp_call unharmed_fieldsHolding (fun _ he => he) ?_ ?_
  · intro n t hm
    rcases redis_released hm with ⟨-, rfl⟩ | ⟨h, -⟩ | ⟨h, -⟩ | ⟨_, h, -⟩
    · rfl
    all_goals cases h
  · intro n r t hm
    rcases redis_released hm with ⟨h, -⟩ | ⟨h, rfl, hwindow⟩ | ⟨-, -, h⟩ | ⟨reply, h, rfl⟩
    · cases h
    · obtain rfl := Option.some.inj h
      exact hnone hwindow
    · exact absurd h hread
    · obtain rfl := Option.some.inj h
      exact hsome reply

/-- A command whose reply is released in any case. -/
theorem wp_unread_released {cmd : RedisCommand} {k : Option Reply → UpdaterProg α}
    (h : ∀ r held, wpUpdater (k r) Q (fieldsHolding held result)) :
    wpUpdater (.call (.redis cmd) k) Q (fieldsHolding false result) := by
  refine wp_call unharmed_fieldsHolding (fun _ he => he) ?_ ?_
  · intro n t hm
    rcases redis_released hm with ⟨-, rfl⟩ | ⟨h, -⟩ | ⟨h, -⟩ | ⟨_, h, -⟩
    · rfl
    all_goals cases h
  · intro n r t hm
    rcases redis_released hm with ⟨h, -⟩ | ⟨-, rfl, -⟩ | ⟨-, rfl, -⟩ | ⟨_, -, rfl⟩
    · cases h
    all_goals exact h r _

theorem wp_freeReply_released {k : Unit → UpdaterProg α}
    (h : wpUpdater (k ()) Q (fieldsHolding false result)) :
    wpUpdater (.call .freeReply k) Q (fieldsHolding reply result) := by
  refine wp_call unharmed_fieldsHolding (fun _ he => he) ?_ ?_
  · rintro n t ⟨outcome, -, hm⟩
    cases outcome <;> cases hm
  · rintro n r t ⟨outcome, -, hm⟩
    cases outcome <;> cases hm
    exact h

theorem wp_freeResult_released {k : Unit → UpdaterProg α}
    (h : wpUpdater (k ()) Q (fieldsHolding reply false)) :
    wpUpdater (.call .freeResult k) Q (fieldsHolding reply result) := by
  refine wp_call unharmed_fieldsHolding (fun _ he => he) ?_ ?_
  · rintro n t ⟨outcome, -, hm⟩
    cases outcome <;> cases hm
  · rintro n r t ⟨outcome, -, hm⟩
    cases outcome <;> cases hm
    exact h

/-- A query that fails leaves no result set. -/
theorem mysqlQuery_released {n : Nat} {ok hasResult : Bool} {r : Option Bool} {t : Fields}
    (h : (fieldsHolding reply false).mysqlQuery n ok hasResult = (r, t)) :
    (r ≠ some true ∧ t = fieldsHolding reply false) ∨ (r = some true ∧ t = fieldsHolding reply hasResult) := by
  obtain ⟨rfl, rfl⟩ := Prod.mk.inj h
  cases ok with
  | false =>
    refine Or.inl ⟨?_, rfl⟩
    unfold MysqlHandler.command
    split
    next hf => cases hf
    next => split <;> simp
  | true => exact Or.inr ⟨rfl, rfl⟩

theorem wp_mysql_released {q : Query} {k : Bool → UpdaterProg α}
    (htrue : ∀ held, wpUpdater (k true) Q (fieldsHolding reply held))
    (hfalse : wpUpdater (k false) Q (fieldsHolding reply false)) :
    wpUpdater (.call (.mysql q) k) Q (fieldsHolding reply false) := by
  refine wp_call unharmed_fieldsHolding (fun _ he => he) ?_ ?_
  · rintro n t ⟨outcome, -, hm⟩
    cases outcome <;> first | cases hm | skip
    rcases mysqlQuery_released (Option.some.inj hm) with ⟨-, ht⟩ | ⟨h, -⟩
    · exact ht
    · cases h
  · rintro n r t ⟨outcome, -, hm⟩
    cases outcome <;> first | cases hm | skip
    rcases mysqlQuery_released (Option.some.inj hm) with ⟨h, rfl⟩ | ⟨h, rfl⟩
    · cases r with
      | false => exact hfalse
      | true => exact absurd rfl h
    · obtain rfl := Option.some.inj h
      exact htrue _

/-- The call reads, and leaves the fields alone. -/
def UpdaterOp.Reads : UpdaterOp → Prop
  | .fetchRows | .affectedRows | .time => True
  | _ => False

theorem wp_read_released {o : UpdaterOp} {k : o.Ret → UpdaterProg α} (ho : o.Reads)
    (h : ∀ r, wpUpdater (k r) Q (fieldsHolding reply result)) :
    wpUpdater (.call o k) Q (fieldsHolding reply result) := by
  refine wp_call unharmed_fieldsHolding (fun _ he => he) ?_ ?_
  · rintro n t ⟨outcome, -, hm⟩
    cases o with
    | fetchRows | affectedRows | time => cases outcome <;> cases hm
    | redis | freeReply | mysql | freeResult => exact ho.elim
  · rintro n r t ⟨outcome, -, hm⟩
    cases o with
    | fetchRows | affectedRows | time =>
      cases outcome <;> cases hm
      exact h r
    | redis | freeReply | mysql | freeResult => exact ho.elim

end Rules

/-! ### `UpdateUserInfo` and `CheckAndUpdateUserInfo` -/

/-- From released fields the program comes to released fields, whatever it returns. -/
def Releasing {α : Type} (p : UpdaterProg α) : Prop :=
  wpUpdater p (fun _ s => s = fieldsHolding false false) (fieldsHolding false false)

theorem releasing_pure {α : Type} (a : α) : Releasing (.pure a) := ⟨unharmed_fieldsHolding, rfl⟩

theorem releasing_bind {α β : Type} {p : UpdaterProg α} {f : α → UpdaterProg β} (hp : Releasing p)
    (hf : ∀ a, Releasing (f a)) : Releasing (p >>= f) := by
  refine wp_bind (hp.mono ?_)
  rintro a s - rfl
  exact hf a

/-- A command whose reply is released before anything else is done. -/
theorem releasing_redis {α : Type} {cmd : RedisCommand} {k : Option Reply → UpdaterProg α} (hread : ¬Unread cmd)
    (hsome : ∀ r, wpUpdater (k (some r))
      (fun _ s => s = fieldsHolding false false) (fieldsHolding true false))
    (hnone : Releasing (k none)) : Releasing (.call (.redis cmd) k) :=
  wp_redis_released hread hsome fun _ => hnone

section Programs
variable {tag : Tag}

theorem not_unread {cmd : RedisCommand} (h : ∀ key, cmd ≠ .del key) : ¬Unread cmd := by
  rintro (hcmd | ⟨tag, hcmd⟩)
  · exact h _ hcmd
  · exact h _ hcmd

theorem not_unread_delTemp : ¬Unread (.del (genTempKey (userInfoKey tag))) := by
  rintro (h | ⟨tag', h⟩)
  · exact temp_ne_tmp tag (Command.del.inj h)
  · exact temp_ne_diff tag tag' (Command.del.inj h)

theorem releasing_updateWindows (uid : UInt64) : Releasing (updateWindows tag uid) := by
  obtain ⟨n, hn⟩ : ∃ n, endUid.toNat + 10240 - uid.toNat ≤ n := ⟨_, le_rfl⟩
  induction n generalizing uid with
  | zero =>
    have hend : ¬uid ≤ endUid := by
      rw [UInt64.le_iff_toNat_le]
      omega
    rw [updateWindows, dif_neg hend]
    exact releasing_pure true
  | succ n ih =>
    rw [updateWindows]
    split
    next hle =>
      have hle' : uid.toNat ≤ 100000000 := UInt64.le_iff_toNat_le.mp hle
      refine wp_mysql_released (fun held => ?_) (releasing_pure false)
      refine wp_read_released trivial fun rows => ?_
      refine wp_redis_released (not_unread fun key h => by cases h) (fun reply => ?_) fun hheld => ?_
      · refine wp_freeReply_released (wp_freeResult_released (ih (uid + countsPerLoop) ?_))
        simp only [endUid, countsPerLoop, UInt64.toNat_add, UInt64.reduceToNat] at hn ⊢
        omega
      · -- the window is given up without a result set
        obtain rfl := hheld trivial
        exact releasing_pure false
    next => exact releasing_pure true

theorem releasing_checkDiff : Releasing (checkDiff tag) := by
  refine releasing_redis (not_unread fun key h => by cases h) (fun _ => ?_) (releasing_pure none)
  refine wp_freeReply_released (releasing_redis (not_unread fun key h => by cases h) (fun reply => ?_) (releasing_pure none))
  refine wp_freeReply_released (wp_unread_released fun _ held => wp_freeReply_released ?_)
  exact releasing_pure (some (acceptsDiff (UInt32.ofNat reply.toInteger)))

theorem releasing_recordUpdate : Releasing (recordUpdate tag) := by
  refine wp_read_released trivial fun now => wp_mysql_released (fun held => ?_) (releasing_pure false)
  refine wp_read_released trivial fun affectedRows => wp_freeResult_released ?_
  show Releasing (if affectedRows ≤ 0 then _ else _)
  split
  · refine wp_mysql_released (fun held => ?_) (releasing_pure false)
    exact wp_freeResult_released (releasing_pure true)
  · exact releasing_pure true

theorem releasing_publish : Releasing (publish tag) := by
  refine releasing_redis (not_unread fun key h => by cases h) (fun _ => ?_) (releasing_pure ())
  refine wp_freeReply_released (releasing_bind (p := recordUpdate tag) releasing_recordUpdate fun ok => ?_)
  cases ok with
  | false => exact releasing_pure ()
  | true => exact wp_unread_released fun _ held => wp_freeReply_released (releasing_pure ())

theorem releasing_checkAndPublish : Releasing (checkAndPublish tag) := by
  refine releasing_redis (not_unread fun key h => by cases h) (fun reply => ?_) (releasing_pure ())
  refine wp_freeReply_released ?_
  show Releasing (if reply.toInteger = 0 then _ else _)
  split
  · exact releasing_publish
  · refine releasing_bind (p := checkDiff tag) releasing_checkDiff fun ok => ?_
    match ok with
    | none | some false => exact releasing_pure ()
    | some true => exact releasing_publish

theorem releasing_updateUserInfo : Releasing (updateUserInfo tag) := by
  refine releasing_redis not_unread_delTemp (fun _ => ?_) (releasing_pure ())
  refine wp_freeReply_released (releasing_bind (p := updateWindows tag 0) (releasing_updateWindows 0) fun ok => ?_)
  cases ok with
  | false => exact releasing_pure ()
  | true => exact releasing_checkAndPublish

end Programs

/-- Within the process `UpdateUserInfo` does what it does alone. -/
theorem wp_lift {α : Type} {Q : α → Fields → Prop} {p : UpdaterProg α} {s : Fields}
    (h : wpUpdater p Q s) :
    wpProcess
      (p.interp fun o => Prog.perform (HandlerOp.updater o)) Q s :=
  wp_interp (fun _ _ I _ hK hI hs => ⟨I, ⟨hI.inv, hI.env, hI.retry, fun n s r t hi hm =>
    ⟨hK r t (hI.ret n s r t hi hm), hI.ret n s r t hi hm⟩⟩, hs⟩) h

/-- The calls of the process leave nothing behind. -/
def ReleasingCalls (p : HandlerProg Unit) : Prop :=
  wpProcess p (fun _ s => s = fieldsHolding false false)
    (fieldsHolding false false)

theorem releasingCalls_pure : ReleasingCalls (.pure ()) := ⟨unharmed_fieldsHolding, rfl⟩

theorem releasingCalls_bind {p q : HandlerProg Unit} (hp : ReleasingCalls p) (hq : ReleasingCalls q) :
    ReleasingCalls (p >>= fun _ => q) := by
  refine wp_bind (hp.mono ?_)
  rintro _ s - rfl
  exact hq

theorem releasingCalls_updaterProg (tag : Tag) : ReleasingCalls (updaterProg tag) := wp_lift releasing_updateUserInfo

/-- `freeResult` releases the result set of the record. -/
theorem wp_freeResult_check {held : Bool} {p : HandlerProg Unit} (hp : ReleasingCalls p) :
    wpProcess (CheckOp.freeResult.prog >>= fun _ => p)
      (fun _ s => s = fieldsHolding false false) (fieldsHolding false held) := by
  have hfree : wpUpdater (Prog.perform UpdaterOp.freeResult)
      (fun _ s => s = fieldsHolding false false) (fieldsHolding false held) :=
    wp_freeResult_released ⟨unharmed_fieldsHolding, rfl⟩
  refine wp_bind ((wp_lift hfree).mono ?_)
  rintro _ s - rfl
  exact hp

theorem releasingCalls_check (offset : Int) (tag : Tag) :
    ReleasingCalls ((checkAndUpdateUserInfo offset tag).interp CheckOp.prog) := by
  have hupdate : ReleasingCalls (updaterProg tag >>= fun _ => .pure ()) :=
    releasingCalls_bind (releasingCalls_updaterProg tag) releasingCalls_pure
  refine wp_call unharmed_fieldsHolding (fun _ he => he) ?_ ?_
  · rintro n t ⟨outcome, -, hm⟩
    cases outcome <;> first | cases hm | skip
    rcases mysqlQuery_released (Option.some.inj hm) with ⟨-, ht⟩ | ⟨h, -⟩
    · exact ht
    · cases h
  rintro n r t ⟨outcome, -, hm⟩
  cases outcome <;> first | cases hm | skip
  rcases mysqlQuery_released (Option.some.inj hm) with ⟨h, rfl⟩ | ⟨h, rfl⟩
  · cases r with
    | false => exact releasingCalls_pure
    | true => exact absurd rfl h
  obtain rfl := Option.some.inj h
  refine wp_call unharmed_fieldsHolding (fun _ he => he) ?_ ?_
  · rintro n t ⟨outcome, -, hm⟩
    cases outcome <;> cases hm
  rintro n row t ⟨outcome, -, hm⟩
  cases outcome <;> cases hm
  cases row with
  | none => exact wp_freeResult_check hupdate
  | some timestamp =>
    refine wp_bind (p := CheckOp.time.prog) (wp_lift (p := Prog.perform UpdaterOp.time)
      (wp_read_released trivial fun now => ⟨unharmed_fieldsHolding, ?_⟩))
    show wp _ _ _ (Prog.interp CheckOp.prog (if _ then _ else _)) _ _
    split
    · exact wp_freeResult_check releasingCalls_pure
    · exact wp_freeResult_check hupdate

theorem releasingCalls_updaterCalls (offset : Int) (calls : List UpdaterCall) :
    ReleasingCalls (updaterCalls offset calls) := by
  induction calls with
  | nil => exact releasingCalls_pure
  | cons c calls ih =>
    refine releasingCalls_bind (p := c.prog offset) ?_ ih
    cases c with
    | check tag => exact releasingCalls_check offset tag
    | update tag => exact releasingCalls_updaterProg tag

theorem updater_released {offset : Int} {calls : List UpdaterCall} {th : Thread HandlerOp HandlerOp.Ret Unit} {s : Fields}
    (h : Reaches (handlerTry HandlerOp.Releases) NoOthers (updaterCalls offset calls) {} th s) : s.Unharmed :=
  (h.holds (releasingCalls_updaterCalls offset calls)
    ⟨fun _ _ _ _ _ he => he.elim, fun _ _ _ _ _ he => he.elim⟩).inv

end PushSystem
