/-
# Pages, server and host program together

The whole system: any number of pages, each of which connects once, the two threads of the
server, and the handlers of the host program, which answer commands.  A handler answers a
command by posting one message with the number that it found in its arguments; it may do so
at once or later, and the answers of different commands in any order.
`libwebsockets_broadcast` calls the callback once for each connection, a text that is sent
reaches the server as one payload, and a frame that is written to a connection reaches the
page of this connection.

Beside the data of the program, texts and messages carry the call of `issue` that they go
back to.  No function of the program looks at it: it says whose command an answer answers.
-/
import Headcrab.Client
import Headcrab.Commands
import Headcrab.ServerRuns

namespace Headcrab

open Json

/-- A call of `issue`: the page, and how many calls the page had made before. -/
@[ext] structure IssueId (W : Type) where
  client : W
  number : ℕ
deriving DecidableEq, Repr

/-- The number that the call sends with its command. -/
def IssueId.seqID {W : Type} (id : IssueId W) : ℕ := min id.number (2 ^ 53)

/-- The `JSON` of the pages, and jansson, on texts in `T`. -/
structure JsonText (T : Type) where
  stringify : Json → T
  parse : T → Option Json
  json_loads : T → Option Json
  json_dumps : Json → Option T

/-- The message that a handler answers with. -/
def response (data : Json) : Json := .object [("type", .string "response"), ("data", data)]

/-- A `json_int_t` as an `int`. -/
def intOf (n : ℤ) : ℤ := Int.bmod n (2 ^ 32)

variable {W T ω : Type}

/-- The number of a command, and that of an answer, are read as they were written. -/
structure JsonText.KeepsSeqID (J : JsonText T) : Prop where
  command : ∀ {target cmd args n v}, n ≤ 2 ^ 53 →
    J.json_loads (J.stringify (Client.command target cmd args n)) = some v →
    json_object_get (some v) "seqID" = some (.integer n)
  answer : ∀ {data n m t v}, -2 ^ 31 ≤ n → n < 2 ^ 31 →
    headcrab_post_message n (some (response data)) = some m → J.json_dumps m = some t →
    J.parse t = some v → json_object_get (some v) "seqID" = some (.integer n)

/-- A page with its end of the connection. -/
structure Peer (W T : Type) where
  page : Client (IssueId W)
  /-- How often the page has called `issue`. -/
  issued : ℕ
  /-- The texts on the way to the server. -/
  sent : List (T × IssueId W)
  /-- The frames on the way to the page. -/
  arriving : List (T × IssueId W)

structure System (W T ω : Type) where
  server : Server W (Json × IssueId W)
  peers : W → Peer W T
  /-- What the host program can reach, until a dispatch does not return. -/
  host : Option (Heap × ω)
  /-- The numbers of the commands that handlers still have to answer. -/
  answers : List (ℤ × IssueId W)

namespace System

/-- The functions of jansson, for texts and messages that carry a call of `issue`. -/
def codec (J : JsonText T) : Codec (T × IssueId W) (Json × IssueId W) (T × IssueId W) where
  loads p := (J.json_loads p.1).map fun m => (m, p.2)
  dumps m := (J.json_dumps m.1).map fun t => (t, m.2)

/-- `replyhandler` calls a callback. -/
structure Called (W : Type) where
  client : W
  /-- The call of `issue` that the callback was given to. -/
  registered : IssueId W
  /-- The call of `issue` whose command is answered. -/
  answered : IssueId W
  data : Option Json

/-- What moves the system. -/
inductive Move (W T : Type)
  /-- A page connects. -/
  | connect (w : W)
  /-- A page calls `issue`, with or without a callback. -/
  | issue (w : W) (target cmd args : Option Json) (onReply : Bool)
  /-- `LWS_CALLBACK_RECEIVE`, for the text that a page has sent first. -/
  | receive (w : W)
  /-- A turn of `headcrab_handle_commands`. -/
  | handle (fuel : ℕ)
  /-- A handler answers the command at a place among those not yet answered. -/
  | post (i : ℕ) (data : Json)
  /-- The server does something of its own. -/
  | server (a : Action W (Json × IssueId W) (T × IssueId W))
  /-- A frame reaches its page. -/
  | deliver (w : W)
  /-- The callback that `replyhandler` has called ends. -/
  | replied (w : W) (returned : Bool)

/-- What the server does of its own. -/
def ofItsOwn {V P : Type} : Action W V P → Bool
  | .close _ | .writeable _ | .serviceStep _ | .notify _ | .broadcast | .appStep _ => .true
  | .establish _ | .receive _ _ | .handle | .post _ => .false

/-- The commands that a dispatch leaves to be answered: a handler answers with the number
that it finds in its arguments. -/
def toAnswer (id : IssueId W) (tr : List (HookEvent (Option Json))) : List (ℤ × IssueId W) :=
  (opCalls tr).filterMap fun call =>
    match json_object_get call.args "seqID" with
    | some (.integer n) => some (n, id)
    | _ => none

section Steps

variable [DecidableEq W]

/-- The frames that are written to a connection. -/
def framesFor {V F : Type} (w : W) (es : List (Event W V F)) : List F :=
  es.filterMap fun
    | .write _ w' _ frame => if w' = w then some frame else none
    | _ => none

/-- A step of the server; what it writes is on its way. -/
def serve (J : JsonText T) (s : System W T ω)
    (a : Action W (Json × IssueId W) (T × IssueId W)) : Option (System W T ω) :=
  match s.server.step (codec J) a with
  | some (server, es) =>
    some { s with
      server := server
      peers := fun w =>
        { s.peers w with arriving := (s.peers w).arriving ++ framesFor w es } }
  | none => none

/-- Another peer for a page. -/
def setPeer (s : System W T ω) (w : W) (p : Peer W T) : System W T ω :=
  { s with peers := Function.update s.peers w p }

/-- The step of a move. -/
def step (J : JsonText T) (hooks : Hooks (Option Json) (Heap × ω)) (s : System W T ω) :
    Move W T → Option (System W T ω × List (Called W))
  | .connect w =>
    let p := s.peers w
    -- a page connects once
    if p.page.connection then none
    else (s.serve J (.establish w)).map fun s =>
      (s.setPeer w { p with page := p.page.connect }, [])
  | .issue w target cmd args onReply =>
    let p := s.peers w
    if p.page.connection then
      let id : IssueId W := ⟨w, p.issued⟩
      let (page, message) := p.page.issue target cmd args (if onReply then some id else none)
      some (s.setPeer w { p with
        page := page
        issued := p.issued + 1
        sent := p.sent ++ [(J.stringify message, id)] }, [])
    else none
  | .receive w =>
    match (s.peers w).sent with
    | text :: sent => (s.serve J (.receive w text)).map fun s =>
      (s.setPeer w { s.peers w with sent := sent }, [])
    | [] => none
  | .handle fuel =>
    match s.host with
    | some host => (s.serve J .handle).map fun s' =>
      match (s.server.queues.pop .MQ_IN).1 with
      | some (message, id) =>
        let d := dispatch hooks fuel message host
        -- a dispatch that does not return is the last, but what it has called may still answer
        ({ s' with host := d.result.toOption, answers := s.answers ++ toAnswer id d.trace }, [])
      | none => (s', [])
    | none => none
  | .post i data =>
    match s.answers[i]? with
    | some (n, id) =>
      let message := headcrab_post_message (intOf n) (some (response data))
      (s.serve J (.post (message.map fun m => (m, id)))).map fun s' =>
        -- a command is answered once
        ({ s' with answers := s.answers.eraseIdx i }, [])
    | none => none
  | .server a => if ofItsOwn a then (s.serve J a).map fun s => (s, []) else none
  | .deliver w =>
    let p := s.peers w
    match p.page.replying, p.arriving with
    -- a page handles no frame while a callback runs
    | none, (text, id) :: arriving =>
      match J.parse text with
      | some data =>
        let (page, called) := p.page.replyhandler data
        some (s.setPeer w { p with page := page, arriving := arriving },
          (called.map fun x => ⟨w, x.1, id, x.2⟩).toList)
      -- `JSON.parse` throws, and `replyhandler` is not called
      | none => some (s.setPeer w { p with arriving := arriving }, [])
    | _, _ => none
  | .replied w returned =>
    let p := s.peers w
    if p.page.replying.isSome then
      some (s.setPeer w { p with page := p.page.replied returned }, [])
    else none

/-- The system, from the time that the host program has bound its objects. -/
def machine (J : JsonText T) (hooks : Hooks (Option Json) (Heap × ω)) (host : Heap × ω) :
    Runs.Machine (System W T ω) (Move W T) (Called W) where
  init := ⟨Server.init _ _, fun _ => ⟨Client.init _, 0, [], []⟩, some host, []⟩
  step := step J hooks

end Steps

/-! ## What the number of a command is good for -/

lemma intOf_bounds (n : ℤ) : -2 ^ 31 ≤ intOf n ∧ intOf n < 2 ^ 31 := by
  rw [intOf, Int.bmod_def]
  constructor <;> split <;> omega

/-- The message of the command of a call. -/
def CommandOf (v : Json) (id : IssueId W) : Prop :=
  json_object_get (some v) "seqID" = some (.integer id.seqID)

/-- The message of an answer to the command of a call. -/
def AnswerTo (v : Json) (id : IssueId W) : Prop :=
  ∃ data, headcrab_post_message (intOf id.seqID) (some (response data)) = some v

/-- The in-queue has commands, and the out-queue answers to commands. -/
def Holds : MQ → Json × IssueId W → Prop
  | .MQ_IN, (v, id) => CommandOf v id
  | .MQ_OUT, (v, id) => AnswerTo v id

/-- A handler finds in its arguments the number of the command. -/
lemma toAnswer_number {hooks : Hooks (Option Json) (Heap × ω)} {fuel : ℕ} {message : Json}
    {id : IssueId W} {host : Heap × ω} (hm : CommandOf message id) :
    ∀ x ∈ toAnswer id (dispatch hooks fuel message host).trace, x.1 = x.2.seqID := by
  intro x hx
  obtain ⟨call, hcall, hx⟩ := List.mem_filterMap.mp hx
  split at hx
  · rename_i n hn
    obtain rfl := Option.some.inj hx
    have hseq := dispatch_seqID hooks fuel message host hcall hn
    rw [hm, Option.some.injEq, Json.integer.injEq] at hseq
    exact hseq.symm
  · exact absurd hx (by simp)

/-- The texts of a page and of its connection have the numbers of their calls. -/
structure PeerInv (J : JsonText T) (w : W) (p : Peer W T) : Prop where
  keeps : p.page.Keeps (fun k id => id.client = w ∧ k = id.seqID) p.issued
  sent : ∀ x ∈ p.sent, ∃ target cmd args,
    x.1 = J.stringify (Client.command target cmd args x.2.seqID)
  arriving : ∀ x ∈ p.arriving, ∃ v, AnswerTo v x.2 ∧ J.json_dumps v = some x.1

/-- Wherever a command or an answer is, it has the number of its call. -/
structure Inv (J : JsonText T) (s : System W T ω) : Prop where
  peers : ∀ w, PeerInv J w (s.peers w)
  carries : s.server.Carries Holds
  answers : ∀ x ∈ s.answers, x.1 = x.2.seqID

variable [DecidableEq W] {J : JsonText T} {s s' : System W T ω}

/-- A move of the server changes nothing else but the frames on their way. -/
lemma serve_frame {a : Action W (Json × IssueId W) (T × IssueId W)} (h : s.serve J a = some s') :
    s'.host = s.host ∧ s'.answers = s.answers ∧ ∀ w, (s'.peers w).page = (s.peers w).page ∧
      (s'.peers w).issued = (s.peers w).issued ∧ (s'.peers w).sent = (s.peers w).sent := by
  rw [serve] at h
  split at h
  · obtain rfl := Option.some.inj h
    exact ⟨rfl, rfl, fun w => ⟨rfl, rfl, rfl⟩⟩
  · exact absurd h (by simp)

/-- A move of the server keeps the invariant, if what is received and what is posted has it. -/
lemma Inv.serve {a : Action W (Json × IssueId W) (T × IssueId W)} (hs : Inv J s)
    (h : s.serve J a = some s')
    (hin : ∀ w p m, a = .receive w p → (codec J).loads p = some m → Holds .MQ_IN m)
    (hout : ∀ m, a = .post (some m) → Holds .MQ_OUT m) : Inv J s' := by
  rw [System.serve] at h
  split at h
  · rename_i server es hstep
    obtain rfl := Option.some.inj h
    have heffect := Server.step_effect hstep
    constructor
    · intro w
      constructor
      · exact (hs.peers w).keeps
      · exact (hs.peers w).sent
      · intro x hx
        rcases List.mem_append.mp hx with hx | hx
        · exact (hs.peers w).arriving x hx
        · obtain ⟨e, he, hex⟩ := List.mem_filterMap.mp hx
          cases e with
          | write t w' m frame =>
            obtain ⟨hheld, hdumps⟩ := heffect.write_inv he
            by_cases hw : w' = w
            · simp only [hw, if_true, Option.some.injEq] at hex
              subst hex
              simp only [codec, Option.map_eq_some_iff] at hdumps
              obtain ⟨t', ht', rfl⟩ := hdumps
              exact ⟨m.1, hs.carries.flying t w' m hheld, ht'⟩
            · simp [hw] at hex
          | push _ _ _ | pop _ _ | take _ _ _ => exact absurd hex (by simp)
    · exact heffect.carries hs.carries hin hout
    · exact hs.answers
  · exact absurd h (by simp)

/-- Another peer for a page keeps the invariant, if it has it. -/
lemma Inv.setPeer (hs : Inv J s) {w : W} {p : Peer W T} (hp : PeerInv J w p) :
    Inv J (s.setPeer w p) := by
  constructor
  · intro w'
    by_cases hw : w' = w
    · subst hw
      simpa [System.setPeer] using hp
    · simpa [System.setPeer, Function.update_of_ne hw] using hs.peers w'
  · exact hs.carries
  · exact hs.answers

/-! ## One lemma for each move -/

variable {hooks : Hooks (Option Json) (Heap × ω)} {es : List (Called W)}

lemma Inv.connect (hs : Inv J s) {w : W} (h : step J hooks s (.connect w) = some (s', es)) :
    Inv J s' ∧ es = [] := by
  simp only [step] at h
  split at h
  · exact absurd h (by simp)
  · rename_i hclosed
    obtain ⟨s₁, hserve, heq⟩ := Option.map_eq_some_iff.mp h
    obtain ⟨rfl, rfl⟩ := Prod.mk.inj heq
    refine ⟨(hs.serve hserve ?_ ?_).setPeer ?_, rfl⟩
    · rintro w' p m ⟨⟩
    · rintro m ⟨⟩
    · have hp := hs.peers w
      exact ⟨hp.keeps.connect (by simpa using hclosed), hp.sent, hp.arriving⟩

lemma Inv.issue (hs : Inv J s) {w : W} {target cmd args : Option Json} {onReply : Bool}
    (h : step J hooks s (.issue w target cmd args onReply) = some (s', es)) :
    Inv J s' ∧ es = [] := by
  simp only [step] at h
  split at h
  · rename_i hopen
    obtain ⟨rfl, rfl⟩ := Prod.mk.inj (Option.some.inj h)
    have hp := hs.peers w
    refine ⟨hs.setPeer ?_, rfl⟩
    constructor
    · refine hp.keeps.issue hopen target cmd args ?_
      intro cb hcb
      split at hcb
      · obtain rfl := Option.some.inj hcb
        rw [hp.keeps.next]
        exact ⟨rfl, rfl⟩
      · exact absurd hcb (by simp)
    · intro x hx
      rcases List.mem_append.mp hx with hx | hx
      · exact hp.sent x hx
      · obtain rfl := List.mem_singleton.mp hx
        refine ⟨target, cmd, args, ?_⟩
        rw [Client.issue, hp.keeps.next]
        rfl
    · exact hp.arriving
  · exact absurd h (by simp)

lemma Inv.receive (hJ : J.KeepsSeqID) (hs : Inv J s) {w : W}
    (h : step J hooks s (.receive w) = some (s', es)) : Inv J s' ∧ es = [] := by
  simp only [step] at h
  split at h
  · -- what is pushed is the command of the text that was sent first
    rename_i text sent hsent
    obtain ⟨s₁, hserve, heq⟩ := Option.map_eq_some_iff.mp h
    obtain ⟨rfl, rfl⟩ := Prod.mk.inj heq
    obtain ⟨target, cmd, args, htext⟩ := (hs.peers w).sent text (by simp [hsent])
    have hs₁ : Inv J s₁ := by
      refine hs.serve hserve ?_ ?_
      · rintro w' p m ⟨⟩ hloads
        obtain ⟨v, hv, rfl⟩ := Option.map_eq_some_iff.mp hloads
        rw [htext] at hv
        exact hJ.command (Nat.min_le_right _ _) hv
      · rintro m ⟨⟩
    obtain ⟨-, -, hframe⟩ := serve_frame hserve
    refine ⟨hs₁.setPeer ?_, rfl⟩
    have hp := hs₁.peers w
    refine ⟨hp.keeps, ?_, hp.arriving⟩
    intro x hx
    exact (hs.peers w).sent x (by simp [hsent, hx])
  · exact absurd h (by simp)

lemma Inv.handle (hs : Inv J s) {fuel : ℕ} (h : step J hooks s (.handle fuel) = some (s', es)) :
    Inv J s' ∧ es = [] := by
  simp only [step] at h
  split at h
  · rename_i host hhost
    obtain ⟨s₁, hserve, heq⟩ := Option.map_eq_some_iff.mp h
    have hs₁ : Inv J s₁ := by
      refine hs.serve hserve ?_ ?_
      · rintro w' p m ⟨⟩
      · rintro m ⟨⟩
    split at heq
    · rename_i message id hpop
      obtain ⟨rfl, rfl⟩ := Prod.mk.inj heq
      refine ⟨⟨hs₁.peers, hs₁.carries, ?_⟩, rfl⟩
      intro x hx
      rcases List.mem_append.mp hx with hx | hx
      · exact hs.answers x hx
      · exact toAnswer_number (hs.carries.queued .MQ_IN (message, id) (Rings.mem_of_pop hpop)) x hx
    · obtain ⟨rfl, rfl⟩ := Prod.mk.inj heq
      exact ⟨hs₁, rfl⟩
  · exact absurd h (by simp)

lemma Inv.post (hs : Inv J s) {i : ℕ} {data : Json}
    (h : step J hooks s (.post i data) = some (s', es)) : Inv J s' ∧ es = [] := by
  simp only [step] at h
  split at h
  · rename_i n id hi
    obtain ⟨s₁, hserve, heq⟩ := Option.map_eq_some_iff.mp h
    obtain ⟨rfl, rfl⟩ := Prod.mk.inj heq
    have hn : n = id.seqID := hs.answers (n, id) (List.mem_of_getElem? hi)
    subst hn
    have hs₁ : Inv J s₁ := by
      refine hs.serve hserve ?_ ?_
      · rintro w' p m ⟨⟩
      · intro m hm
        obtain ⟨v, hv, rfl⟩ := Option.map_eq_some_iff.mp (Action.post.inj hm)
        exact ⟨data, hv⟩
    refine ⟨⟨hs₁.peers, hs₁.carries, ?_⟩, rfl⟩
    intro x hx
    exact hs.answers x (List.mem_of_mem_eraseIdx hx)
  · exact absurd h (by simp)

lemma Inv.server (hs : Inv J s) {a : Action W (Json × IssueId W) (T × IssueId W)}
    (h : step J hooks s (.server a) = some (s', es)) : Inv J s' ∧ es = [] := by
  simp only [step] at h
  split at h
  · rename_i hown
    obtain ⟨s₁, hserve, heq⟩ := Option.map_eq_some_iff.mp h
    obtain ⟨rfl, rfl⟩ := Prod.mk.inj heq
    refine ⟨hs.serve hserve ?_ ?_, rfl⟩
    · rintro w p m rfl
      exact absurd hown (by simp [ofItsOwn])
    · rintro m rfl
      exact absurd hown (by simp [ofItsOwn])
  · exact absurd h (by simp)

/-- A callback that is called was given to a call of the same page; the number of this call is
that of the answer, an `int`. -/
lemma Inv.deliver (hJ : J.KeepsSeqID) (hs : Inv J s) {w : W}
    (h : step J hooks s (.deliver w) = some (s', es)) :
    Inv J s' ∧ ∀ c ∈ es, c.registered.client = c.client ∧
      (c.registered.seqID : ℤ) = intOf c.answered.seqID := by
  simp only [step] at h
  have hp := hs.peers w
  split at h
  · rename_i text id arriving hidle harriving
    obtain ⟨v, ⟨data', hmessage⟩, hdumps⟩ := hp.arriving (text, id) (by simp [harriving])
    have hrest : ∀ x ∈ arriving, ∃ v, AnswerTo v x.2 ∧ J.json_dumps v = some x.1 := by
      intro x hx
      exact hp.arriving x (by simp [harriving, hx])
    split at h
    · rename_i data hparse
      obtain ⟨rfl, rfl⟩ := Prod.mk.inj (Option.some.inj h)
      constructor
      · exact hs.setPeer ⟨hp.keeps.replyhandler data, hp.sent, hrest⟩
      · intro c hc
        obtain ⟨⟨cb, x⟩, hcalled, rfl⟩ :=
          Option.map_eq_some_iff.mp (Option.mem_toList.mp hc)
        -- the key that the page looks up is the number in the answer
        obtain ⟨n, hn, hcb⟩ := Client.replyhandler_called hcalled
        obtain ⟨hclient, hnumber⟩ := hp.keeps.kept n cb hcb
        obtain ⟨hlow, hhigh⟩ := intOf_bounds id.seqID
        have hseq := hJ.answer hlow hhigh hmessage hdumps hparse
        rw [hn, Option.some.injEq, Json.integer.injEq] at hseq
        rw [hseq] at hnumber
        exact ⟨hclient, hnumber.symm⟩
    · obtain ⟨rfl, rfl⟩ := Prod.mk.inj (Option.some.inj h)
      constructor
      · exact hs.setPeer ⟨hp.keeps, hp.sent, hrest⟩
      · rintro c ⟨⟩
  · exact absurd h (by simp)

lemma Inv.replied (hs : Inv J s) {w : W} {returned : Bool}
    (h : step J hooks s (.replied w returned) = some (s', es)) : Inv J s' ∧ es = [] := by
  simp only [step] at h
  split at h
  · obtain ⟨rfl, rfl⟩ := Prod.mk.inj (Option.some.inj h)
    have hp := hs.peers w
    exact ⟨hs.setPeer ⟨hp.keeps.replied returned, hp.sent, hp.arriving⟩, rfl⟩
  · exact absurd h (by simp)

/-! ## Whose callback is called -/

lemma Inv.init {host : Heap × ω} : Inv J (machine (W := W) J hooks host).init := by
  constructor
  · intro w
    refine ⟨Client.keeps_init, ?_, ?_⟩
    · rintro x ⟨⟩
    · rintro x ⟨⟩
  · exact Server.carries_init
  · rintro x ⟨⟩

lemma Inv.step (hJ : J.KeepsSeqID) (hs : Inv J s) {a : Move W T}
    (h : step J hooks s a = some (s', es)) :
    Inv J s' ∧ ∀ c ∈ es, c.registered.client = c.client ∧
      (c.registered.seqID : ℤ) = intOf c.answered.seqID := by
  have hquiet : Inv J s' ∧ es = [] → Inv J s' ∧ ∀ c ∈ es, c.registered.client = c.client ∧
      (c.registered.seqID : ℤ) = intOf c.answered.seqID := by
    rintro ⟨hs', rfl⟩
    exact ⟨hs', fun c hc => absurd hc (by simp)⟩
  cases a with
  | connect w => exact hquiet (hs.connect h)
  | issue w target cmd args onReply => exact hquiet (hs.issue h)
  | receive w => exact hquiet (hs.receive hJ h)
  | handle fuel => exact hquiet (hs.handle h)
  | post i data => exact hquiet (hs.post h)
  | server a => exact hquiet (hs.server h)
  | deliver w => exact hs.deliver hJ h
  | replied w returned => exact hquiet (hs.replied h)

end System

end Headcrab
