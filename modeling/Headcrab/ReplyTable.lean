/-
# The table of reply callbacks, through reconnects, throws and re-entrant calls

A page may call `connect` again while commands are out, `connection.send` may throw after the
callback has been put into the table, and a callback may call `issue` and `connect` before
`replyhandler` deletes the entry it was found under.  This file is the page under all of
this: each callback is named by the number of its `issue` call, so that a history shows which
callback was called, with which message, and which callback was removed before it was called.

A callback gets one reply, its own, if the number that `issue` takes is free each time
(`replies_matched`); `connect` starts the numbers again from zero, and then it is not
(`reconnect_loses_callback`).
-/
import Headcrab.Client
import Headcrab.Lib.Runs

namespace Headcrab

open Json

namespace Client

variable {Cb : Type}

/-- `connect`, when the constructor of the socket throws. -/
def connectThrown (c : Client Cb) : Client Cb := { c with nextSeqID := 0 }

/-- `issue`, when there is no connection, or `connection.send` throws. -/
def issueThrown (c : Client Cb) (onReply : Option Cb) : Client Cb :=
  { c with expectedCommands := Function.update c.expectedCommands c.nextSeqID onReply }

lemma lookup_field (key key' : String) (h : key' ≠ key) (value : Option Json) :
    (field key value).lookup key' = none := by
  rcases value with _ | v
  · rfl
  · simp [field, List.lookup_cons, beq_eq_false_iff_ne.mpr h]

/-- The number that a command carries. -/
lemma seqID_command (target cmd args : Option Json) (n : ℕ) :
    json_object_get (some (command target cmd args n)) "seqID" = some (.integer n) := by
  simp only [command, json_object_get, List.lookup_append,
    lookup_field "target" "seqID" (by decide), lookup_field "command" "seqID" (by decide),
    lookup_field "args" "seqID" (by decide)]
  rfl

end Client

/-- A command that the page has sent and that has not been answered. -/
structure SentCommand where
  /-- The number of the `issue` call. -/
  issue : ℕ
  /-- The socket it was sent on, by the number of the `connect` call that opened it. -/
  socket : ℕ
  message : Json

/-- A page, with its commands; a callback is named by the number of its `issue` call. -/
structure Page where
  client : Client ℕ
  /-- The number of sockets opened; the last one is `connection`. -/
  sockets : ℕ
  /-- The number of `issue` calls made. -/
  issued : ℕ
  commands : List SentCommand
  /-- The `issue` calls whose callback has been called. -/
  called : List ℕ

/-- What happens on a page. -/
inductive PageAction
  /-- `connect`; the flag says whether the socket could be made. -/
  | connect (opened : Bool)
  /-- `issue`, with a callback or without; the last flag says whether `connection.send`
  returns. -/
  | issue (target cmd args : Option Json) (onReply sent : Bool)
  /-- A socket receives a message, which may be the answer to the command of an `issue`
  call. -/
  | message (socket : ℕ) (data : Json) (answers : Option ℕ)
  /-- The callback that `replyhandler` has called returns, or throws. -/
  | returned (ok : Bool)

/-- What is seen of the callbacks. -/
inductive PageEvent
  /-- The callback of an `issue` call is called with a value, on a message that answers the
  command of an `issue` call. -/
  | called (callback : ℕ) (value : Option Json) (data : Json) (answers : Option ℕ)
  /-- The callback of an `issue` call is removed from the table, and has not been called. -/
  | lost (callback : ℕ)

namespace Page

def init : Page := ⟨.init ℕ, 0, 0, [], []⟩

/-- The number that a message carries. -/
def seqIDOf (data : Json) : Option ℤ :=
  match json_object_get (some data) "seqID" with
  | some (.integer n) => some n
  | _ => none

/-- A message has the type of a response. -/
def isResponse (data : Json) : Bool :=
  json_string_value (json_object_get (some data) "type") == some "response"

/-- The callback that is kept under a number, if it has not been called. -/
def outstanding (p : Page) (n : ℤ) : List ℕ :=
  (p.client.expectedCommands n).toList.filter (· ∉ p.called)

/-- What the server may send on a socket: the answer to a command that was sent on it and has
not been answered, with the number of the command, or a message that is no response. -/
def mayReceive (p : Page) (socket : ℕ) (data : Json) : Option ℕ → Bool
  | some i => p.commands.any fun c =>
      c.issue = i && c.socket = socket && seqIDOf data == seqIDOf c.message
  | none => !isResponse data

/-- The page after an action, with what is seen. -/
def step (p : Page) : PageAction → Option (Page × List PageEvent)
  | .connect opened =>
    if opened then some ({ p with client := p.client.connect, sockets := p.sockets + 1 }, [])
    else some ({ p with client := p.client.connectThrown }, [])
  | .issue target cmd args onReply sent =>
    let callback := if onReply then some p.issued else none
    let lost := (p.outstanding p.client.nextSeqID).map .lost
    if sent && p.client.connection then
      let (client, message) := p.client.issue target cmd args callback
      some ({ p with
        client
        issued := p.issued + 1
        commands := p.commands ++ [⟨p.issued, p.sockets, message⟩] }, lost)
    else some ({ p with client := p.client.issueThrown callback, issued := p.issued + 1 }, lost)
  | .message socket data answers =>
    -- the callback runs to its end before the next message is handled
    if p.client.replying = none ∧ 1 ≤ socket ∧ socket ≤ p.sockets ∧
        p.mayReceive socket data answers then
      let commands := p.commands.filter fun c => answers ≠ some c.issue
      match p.client.replyhandler data with
      | (client, none) => some ({ p with client, commands }, [])
      | (client, some (callback, value)) =>
        some ({ p with client, commands, called := callback :: p.called },
          [.called callback value data answers])
    else none
  | .returned ok =>
    match p.client.replying with
    | some n => some ({ p with client := p.client.replied ok },
        if ok then (p.outstanding n).map .lost else [])
    | none => none

/-- The page as a system. -/
def machine : Runs.Machine Page PageAction PageEvent where
  init := init
  step := step

/-! ## One callback, one reply -/

/-- The callbacks that were called, in order. -/
def callbacks (tr : List PageEvent) : List ℕ :=
  tr.filterMap fun
    | .called callback _ _ _ => some callback
    | .lost _ => none

/-- **One callback, one reply.**  No callback is removed before it has been called, none is
called twice, and each is called with the data of a response to its own command. -/
structure RepliesMatched (tr : List PageEvent) : Prop where
  noneLost : ∀ callback, .lost callback ∉ tr
  once : (callbacks tr).Nodup
  own : ∀ callback value data answers, .called callback value data answers ∈ tr →
    answers = some callback ∧ isResponse data = Bool.true ∧
      value = json_object_get (some data) "data"

/-- The number that an `issue` call takes is free: no callback that has not been called is
kept under it; and if the call has a callback, no command that has not been answered carries
the number, and it is not that of the reply whose callback is running. -/
def TakesFreeNumber (p : Page) : PageAction → Prop
  | .issue _ _ _ onReply _ =>
    p.outstanding p.client.nextSeqID = [] ∧
      (onReply = Bool.true → (∀ c ∈ p.commands, seqIDOf c.message ≠ some p.client.nextSeqID) ∧
        p.client.replying ≠ some p.client.nextSeqID)
  | _ => True

/-! ## The table along a run -/

@[simp] lemma callbacks_append (tr tr' : List PageEvent) :
    callbacks (tr ++ tr') = callbacks tr ++ callbacks tr' :=
  List.filterMap_append ..

/-- `replyhandler` does nothing, or it is called on a response and calls the callback that is
kept under its number. -/
lemma replyhandler_cases (c : Client ℕ) (data : Json) :
    c.replyhandler data = (c, none) ∨
      ∃ n callback, isResponse data = Bool.true ∧ seqIDOf data = some n ∧
        c.expectedCommands n = some callback ∧
        c.replyhandler data = ({ c with replying := some n },
          some (callback, json_object_get (some data) "data")) := by
  rw [Client.replyhandler]
  split
  · exact Or.inl rfl
  · rename_i htype
    split
    · rename_i n hn
      split
      · rename_i callback hcallback
        refine Or.inr ⟨n, callback, ?_, ?_, hcallback, rfl⟩
        · simpa [isResponse] using htype
        · rw [seqIDOf, hn]
      · exact Or.inl rfl
    · exact Or.inl rfl

/-- What holds between actions.  A callback that is kept under the number of a command that
can still be answered is the callback of that command, and has not been called. -/
structure Inv (p : Page) : Prop where
  kept : ∀ k i, p.client.expectedCommands k = some i → i < p.issued
  called : ∀ i ∈ p.called, i < p.issued
  own : ∀ k i c, p.client.expectedCommands k = some i → c ∈ p.commands →
    seqIDOf c.message = some k → c.issue = i ∧ i ∉ p.called
  replying : ∀ k, p.client.replying = some k → p.outstanding k = []

lemma inv_init : Inv init := by
  constructor
  · rintro k i ⟨⟩
  · rintro i ⟨⟩
  · rintro k i c ⟨⟩
  · rintro k ⟨⟩

variable {p : Page}

/-- Making a connection, or failing to, leaves the table and the commands alone. -/
lemma Inv.congr {p' : Page} (h : Inv p)
    (hkept : p'.client.expectedCommands = p.client.expectedCommands)
    (hreplying : p'.client.replying = p.client.replying) (hissued : p'.issued = p.issued)
    (hcommands : ∀ c ∈ p'.commands, c ∈ p.commands) (hcalled : p'.called = p.called) :
    Inv p' := by
  constructor
  · rw [hkept, hissued]
    exact h.kept
  · rw [hcalled, hissued]
    exact h.called
  · intro k i c hk hc hn
    rw [hkept] at hk
    rw [hcalled]
    exact h.own k i c hk (hcommands c hc) hn
  · intro k hk
    rw [hreplying] at hk
    rw [outstanding, hkept, hcalled]
    exact h.replying k hk

/-- A call of `issue` that takes a free number, whether its command is sent or not. -/
lemma Inv.issue {p' : Page} {target cmd args : Option Json} {onReply sent : Bool} (h : Inv p)
    (hfree : p.TakesFreeNumber (.issue target cmd args onReply sent))
    (hkept : p'.client.expectedCommands = Function.update p.client.expectedCommands
      p.client.nextSeqID (if onReply then some p.issued else none))
    (hreplying : p'.client.replying = p.client.replying) (hissued : p'.issued = p.issued + 1)
    (hcommands : ∀ c ∈ p'.commands, c ∈ p.commands ∨
      c.issue = p.issued ∧ seqIDOf c.message = some (p.client.nextSeqID : ℤ))
    (hcalled : p'.called = p.called) : Inv p' := by
  obtain ⟨-, hfree⟩ := hfree
  have hnew : p.issued ∉ p.called := fun hmem => absurd (h.called _ hmem) (Nat.lt_irrefl _)
  have hself : ∀ i, p'.client.expectedCommands p.client.nextSeqID = some i →
      onReply = Bool.true ∧ i = p.issued := by
    intro i hi
    rw [hkept, Function.update_self] at hi
    cases onReply
    · exact absurd hi (by simp)
    · exact ⟨rfl, (Option.some.inj hi).symm⟩
  have hother : ∀ k : ℤ, k ≠ p.client.nextSeqID →
      p'.client.expectedCommands k = p.client.expectedCommands k := by
    intro k hk
    rw [hkept, Function.update_of_ne hk]
  constructor
  · intro k i hk
    by_cases hkey : k = p.client.nextSeqID
    · subst hkey
      obtain ⟨-, rfl⟩ := hself i hk
      omega
    · rw [hother k hkey] at hk
      have := h.kept k i hk
      omega
  · intro i hi
    rw [hcalled] at hi
    have := h.called i hi
    omega
  · intro k i c hk hc hn
    rw [hcalled]
    by_cases hkey : k = p.client.nextSeqID
    · -- only the new command carries the number
      subst hkey
      obtain ⟨hon, rfl⟩ := hself i hk
      rcases hcommands c hc with hold | ⟨hc, -⟩
      · exact absurd hn ((hfree hon).1 c hold)
      · exact ⟨hc, hnew⟩
    · rw [hother k hkey] at hk
      rcases hcommands c hc with hold | ⟨-, hnum⟩
      · exact h.own k i c hk hold hn
      · rw [hnum, Option.some.injEq] at hn
        exact absurd hn.symm hkey
  · intro k hk
    rw [hreplying] at hk
    by_cases hkey : k = p.client.nextSeqID
    · subst hkey
      rcases hi : p'.client.expectedCommands p.client.nextSeqID with _ | i
      · rw [outstanding, hi]
        rfl
      · exact absurd hk ((hfree (hself i hi).1).2)
    · rw [outstanding, hother k hkey, hcalled]
      exact h.replying k hk

/-- What a message on a socket leads to. -/
lemma Inv.message {socket : ℕ} {data : Json} {answers : Option ℕ} {n : ℤ} {callback : ℕ}
    (h : Inv p) (hmay : p.mayReceive socket data answers = Bool.true)
    (hresponse : isResponse data = Bool.true) (hn : seqIDOf data = some n)
    (hkept : p.client.expectedCommands n = some callback) :
    answers = some callback ∧ callback ∉ p.called ∧
      Inv { p with
        client := { p.client with replying := some n }
        commands := p.commands.filter fun c => answers ≠ some c.issue
        called := callback :: p.called } := by
  -- the message is the answer to a command, and the callback is that of the command
  obtain ⟨c, hc, rfl, hnum⟩ : ∃ c ∈ p.commands, answers = some c.issue ∧
      seqIDOf c.message = some n := by
    rcases answers with _ | i
    · simp [mayReceive, hresponse] at hmay
    · simp only [mayReceive, List.any_eq_true, Bool.and_eq_true, decide_eq_true_eq, beq_iff_eq,
        hn] at hmay
      obtain ⟨c, hc, ⟨rfl, -⟩, hnum⟩ := hmay
      exact ⟨c, hc, rfl, hnum.symm⟩
  obtain ⟨rfl, hcalled⟩ := h.own n callback c hkept hc hnum
  refine ⟨rfl, hcalled, ?_⟩
  constructor
  · exact h.kept
  · intro i hi
    rcases List.mem_cons.mp hi with rfl | hi
    · exact h.kept n _ hkept
    · exact h.called i hi
  · intro k i c' hk hc' hnum'
    obtain ⟨hc', hne⟩ := List.mem_filter.mp hc'
    obtain ⟨rfl, hcalled'⟩ := h.own k i c' hk hc' hnum'
    refine ⟨rfl, fun hmem => ?_⟩
    rcases List.mem_cons.mp hmem with heq | hmem
    · exact absurd (congrArg some heq).symm (of_decide_eq_true hne)
    · exact hcalled' hmem
  · rintro k ⟨⟩
    simp [outstanding, hkept]

/-- The callback returns, or throws. -/
lemma Inv.replied {n : ℤ} (h : Inv p) (hn : p.client.replying = some n) (ok : Bool) :
    Inv { p with client := p.client.replied ok } := by
  have hreplying : (p.client.replied ok).replying = none := by
    cases ok <;> simp [Client.replied, hn]
  have hsub : ∀ k i, (p.client.replied ok).expectedCommands k = some i →
      p.client.expectedCommands k = some i := by
    intro k i hk
    cases ok with
    | false => simpa [Client.replied, hn] using hk
    | true =>
      simp only [Client.replied, hn, if_true] at hk
      by_cases hkey : k = n
      · subst hkey
        exact absurd hk (by simp)
      · rwa [Function.update_of_ne hkey] at hk
  constructor
  · exact fun k i hk => h.kept k i (hsub k i hk)
  · exact h.called
  · exact fun k i c hk => h.own k i c (hsub k i hk)
  · intro k hk
    rw [hreplying] at hk
    exact absurd hk (by simp)

/-- What a history shows stays as it should be, if what is added does. -/
lemma RepliesMatched.append {tr es : List PageEvent} (h : RepliesMatched tr)
    (hes : RepliesMatched es) (hnew : ∀ i ∈ callbacks es, i ∉ callbacks tr) :
    RepliesMatched (tr ++ es) := by
  constructor
  · intro i hi
    rcases List.mem_append.mp hi with hi | hi
    · exact h.noneLost i hi
    · exact hes.noneLost i hi
  · rw [callbacks_append]
    exact List.nodup_append.mpr ⟨h.once, hes.once, fun i hi j hj hij => hnew j hj (hij ▸ hi)⟩
  · intro i value data answers hi
    rcases List.mem_append.mp hi with hi | hi
    · exact h.own i value data answers hi
    · exact hes.own i value data answers hi

lemma repliesMatched_nil : RepliesMatched [] := by
  constructor
  · rintro i ⟨⟩
  · exact List.nodup_nil
  · rintro i value data answers ⟨⟩

/-- A step that takes a free number if it is a call of `issue` keeps the invariant, and what
it shows is as it should be. -/
theorem Inv.step {a : PageAction} {p' : Page} {es : List PageEvent} (h : Inv p)
    (hC : p.TakesFreeNumber a) (hstep : p.step a = some (p', es)) :
    Inv p' ∧ RepliesMatched es ∧
      ∃ new, p'.called = new ++ p.called ∧ (∀ i ∈ new, i ∉ p.called) ∧ callbacks es = new := by
  cases a with
  | connect opened =>
    simp only [Page.step] at hstep
    split at hstep <;>
    · obtain ⟨rfl, rfl⟩ := Prod.mk.inj (Option.some.inj hstep)
      exact ⟨h.congr rfl rfl rfl (fun _ hc => hc) rfl, repliesMatched_nil, [], rfl, by simp, rfl⟩
  | issue target cmd args onReply sent =>
    simp only [Page.step, hC.1, List.map_nil] at hstep
    split at hstep
    · obtain ⟨rfl, rfl⟩ := Prod.mk.inj (Option.some.inj hstep)
      refine ⟨h.issue hC rfl rfl rfl (fun c hc => ?_) rfl, repliesMatched_nil, [], rfl, by simp,
        rfl⟩
      rcases List.mem_append.mp hc with hc | hc
      · exact Or.inl hc
      · obtain rfl := List.mem_singleton.mp hc
        refine Or.inr ⟨rfl, ?_⟩
        rw [seqIDOf, Client.issue, Client.seqID_command]
    · obtain ⟨rfl, rfl⟩ := Prod.mk.inj (Option.some.inj hstep)
      exact ⟨h.issue hC rfl rfl rfl (fun c hc => Or.inl hc) rfl, repliesMatched_nil, [], rfl,
        by simp, rfl⟩
  | message socket data answers =>
    simp only [Page.step] at hstep
    split at hstep
    · rename_i hguard
      obtain ⟨hidle, -, -, hmay⟩ := hguard
      rcases replyhandler_cases p.client data with
        hnone | ⟨n, callback, hresponse, hn, hkept, hcall⟩
      · rw [hnone] at hstep
        obtain ⟨rfl, rfl⟩ := Prod.mk.inj (Option.some.inj hstep)
        exact ⟨h.congr rfl rfl rfl (fun c hc => (List.mem_filter.mp hc).1) rfl,
          repliesMatched_nil, [], rfl, by simp, rfl⟩
      · rw [hcall] at hstep
        obtain ⟨rfl, rfl⟩ := Prod.mk.inj (Option.some.inj hstep)
        obtain ⟨hanswers, hnew, hinv⟩ := h.message hmay hresponse hn hkept
        refine ⟨hinv, ?_, [callback], rfl, by simpa using hnew, rfl⟩
        constructor
        · simp
        · simp [callbacks]
        · intro i value data' answers' hi
          simp only [List.mem_singleton, PageEvent.called.injEq] at hi
          obtain ⟨rfl, rfl, rfl, rfl⟩ := hi
          exact ⟨hanswers, hresponse, rfl⟩
    · exact absurd hstep (by simp)
  | returned ok =>
    simp only [Page.step] at hstep
    split at hstep
    · rename_i n hn
      obtain ⟨rfl, hes⟩ := Prod.mk.inj (Option.some.inj hstep)
      obtain rfl : es = [] := by
        rw [← hes, h.replying n hn]
        cases ok <;> rfl
      exact ⟨h.replied hn ok, repliesMatched_nil, [], rfl, by simp, rfl⟩
    · exact absurd hstep (by simp)

/-- **When each callback gets its own reply.**  In every run in which `issue` takes a free
number each time. -/
theorem replies_matched {tr : List PageEvent} {p : Page} (hr : machine.Run TakesFreeNumber tr p) :
    RepliesMatched tr := by
  refine (hr.invariant (I := fun tr p => RepliesMatched tr ∧ Inv p ∧
    ∀ i, i ∈ callbacks tr → i ∈ p.called) ⟨repliesMatched_nil, inv_init, by simp [callbacks]⟩
    ?_).1
  rintro tr p a p' es ⟨hmatched, hinv, hcalled⟩ hC hstep
  obtain ⟨hinv', hes, new, hnew, hfresh, hcallbacks⟩ := hinv.step hC hstep
  refine ⟨hmatched.append hes fun i hi hmem => ?_, hinv', fun i hi => ?_⟩
  · rw [hcallbacks] at hi
    exact hfresh i hi (hcalled i hmem)
  · rw [callbacks_append, hcallbacks, List.mem_append] at hi
    rw [hnew, List.mem_append]
    exact hi.symm.imp_right (hcalled i)

instance (p : Page) : (a : PageAction) → Decidable (p.TakesFreeNumber a)
  | .issue .. => inferInstanceAs (Decidable (_ ∧ (_ → _ ∧ _)))
  | .connect _ | .message .. | .returned _ => inferInstanceAs (Decidable True)

/-- A response with a number. -/
def responseTo (n : ℤ) : Json :=
  .object [("type", .string "response"), ("data", .null), ("seqID", .integer n)]

/-- The first reply is used to issue another command; then the page connects again, and takes
the number of the first command again before the second reply comes on the old socket. -/
def reconnectInTime : List PageAction :=
  [.connect Bool.true, .issue none none none Bool.true Bool.true,
    .message 1 (responseTo 0) (some 0), .issue none none none Bool.true Bool.true,
    .returned Bool.true, .connect Bool.true,
    .issue none none none Bool.true Bool.true, .message 1 (responseTo 1) (some 1),
    .returned Bool.true, .message 2 (responseTo 0) (some 2), .returned Bool.true]

theorem replies_matched_reconnectInTime : ∃ tr p, machine.Run TakesFreeNumber tr p ∧
    callbacks tr = [0, 1, 2] ∧ RepliesMatched tr := by
  obtain ⟨tr, p, hr, hcallbacks⟩ := Runs.Machine.run_of_exec_any (M := machine)
    (C := TakesFreeNumber) (P := fun tr _ => callbacks tr = [0, 1, 2]) reconnectInTime
    (by decide +kernel)
  exact ⟨tr, p, hr, hcallbacks, replies_matched hr⟩

/-- A page that connects again puts the next callback over one that waits for its reply. -/
theorem reconnect_loses_callback : ∃ tr p, machine.Reach tr p ∧ ¬ RepliesMatched tr := by
  refine Runs.Machine.run_of_exec
    [.connect Bool.true, .issue none none none Bool.true Bool.true, .connect Bool.true,
      .issue none none none Bool.true Bool.true] ⟨_, rfl, fun h => ?_⟩
  exact h.noneLost 0 (List.mem_singleton_self (PageEvent.lost 0))

end Page

end Headcrab
