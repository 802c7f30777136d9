/-
# The page: `headcrab.js`

A page keeps, under the number of each command that it has issued, the callback for the
reply, and sends the number with the command.  The values of JavaScript that cross the
connection are JSON values; `undefined` is `none`.

`replyhandler` calls the callback before it deletes it, and the callback may issue commands,
so the two halves of `replyhandler` are two functions here.
-/
import Headcrab.Json
import Mathlib.Algebra.Ring.Nat
import Mathlib.Logic.Function.Basic

namespace Headcrab

open Json

/-- The variables of `HC`, for callbacks in `Cb`.  `expectedCommands` is keyed by the numbers
of commands. -/
structure Client (Cb : Type) where
  expectedCommands : ℤ → Option Cb
  /-- Whether `connect` has made the connection. -/
  connection : Bool
  nextSeqID : ℕ
  /-- The number of the reply whose callback is running. -/
  replying : Option ℤ

namespace Client

variable {Cb : Type}

/-- A page that has just been loaded. -/
def init (Cb : Type) : Client Cb := ⟨fun _ => none, false, 0, none⟩

/-- `connect`. -/
def connect (c : Client Cb) : Client Cb := { c with nextSeqID := 0, connection := .true }

/-- `n++` on a number of JavaScript, which stays at `2 ^ 53` once it is there. -/
def increment (n : ℕ) : ℕ := if n < 2 ^ 53 then n + 1 else n

lemma increment_min (n : ℕ) : increment (min n (2 ^ 53)) = min (n + 1) (2 ^ 53) := by
  rw [increment]
  split <;> omega

/-- A field of an object literal, as `JSON.stringify` sees it. -/
def field (key : String) (value : Option Json) : List (String × Json) :=
  (value.map fun v => (key, v)).toList

/-- The object that `issue` turns into a text. -/
def command (target cmd args : Option Json) (seqID : ℕ) : Json :=
  .object ([("type", .string "command")] ++ field "target" target ++ field "command" cmd
    ++ field "args" args ++ [("seqID", .integer seqID)])

/-- `issue`: the page afterwards and the object that is sent. -/
def issue (c : Client Cb) (target cmd args : Option Json) (onReply : Option Cb) :
    Client Cb × Json :=
  ({ c with
      expectedCommands := Function.update c.expectedCommands c.nextSeqID onReply
      nextSeqID := increment c.nextSeqID },
    command target cmd args c.nextSeqID)

/-- `replyhandler`, up to the call of the callback: the page then, and the callback with what
it is called with.  The library puts an integer under `seqID` in every message that it
posts, and nothing is looked up for another value. -/
def replyhandler (c : Client Cb) (data : Json) : Client Cb × Option (Cb × Option Json) :=
  if json_string_value (json_object_get (some data) "type") != some "response" then (c, none)
  else
    match json_object_get (some data) "seqID" with
    | some (.integer seqID) =>
      match c.expectedCommands seqID with
      | some cb =>
        ({ c with replying := some seqID }, some (cb, json_object_get (some data) "data"))
      | none => (c, none)
    | _ => (c, none)

/-- `replyhandler`, after the callback has returned, or has thrown: then nothing is deleted. -/
def replied (c : Client Cb) (returned : Bool) : Client Cb :=
  match c.replying with
  | some seqID =>
    -- the key is read from the message again, and is the same
    if returned then
      { c with
        expectedCommands := Function.update c.expectedCommands seqID none
        replying := none }
    else { c with replying := none }
  | none => c

/-- What `replyhandler` calls was kept under the number of the reply. -/
lemma replyhandler_called {c : Client Cb} {data : Json} {cb : Cb} {x : Option Json}
    (h : (c.replyhandler data).2 = some (cb, x)) :
    ∃ n : ℤ, json_object_get (some data) "seqID" = some (.integer n) ∧
      c.expectedCommands n = some cb := by
  rw [replyhandler] at h
  split at h
  · exact absurd h (by simp)
  · split at h
    · rename_i n hn
      split at h
      · rename_i cb' hcb
        simp only [Option.some.injEq, Prod.mk.injEq] at h
        obtain ⟨rfl, -⟩ := h
        exact ⟨n, hn, hcb⟩
      · exact absurd h (by simp)
    · exact absurd h (by simp)

/-- The variables that `replyhandler` leaves alone until the callback has returned. -/
lemma replyhandler_frame (c : Client Cb) (data : Json) :
    (c.replyhandler data).1.expectedCommands = c.expectedCommands ∧
      (c.replyhandler data).1.connection = c.connection ∧
      (c.replyhandler data).1.nextSeqID = c.nextSeqID := by
  rw [replyhandler]
  split
  · exact ⟨rfl, rfl, rfl⟩
  · split
    · split <;> exact ⟨rfl, rfl, rfl⟩
    · exact ⟨rfl, rfl, rfl⟩

/-! ## The callbacks that a page keeps -/

/-- The page had connected when it issued the first of its `issued` commands, and a callback
that it keeps under a number satisfies `P` there. -/
structure Keeps (P : ℤ → Cb → Prop) (issued : ℕ) (c : Client Cb) : Prop where
  fresh : c.connection = .false → issued = 0
  next : c.nextSeqID = min issued (2 ^ 53)
  kept : ∀ k cb, c.expectedCommands k = some cb → P k cb

variable {P : ℤ → Cb → Prop} {issued : ℕ} {c : Client Cb}

lemma keeps_init : Keeps P 0 (init Cb) := by
  constructor
  · exact fun _ => rfl
  · rfl
  · rintro k cb ⟨⟩

lemma Keeps.connect (h : Keeps P issued c) (hnew : c.connection = .false) :
    Keeps P issued c.connect := by
  constructor
  · rintro ⟨⟩
  · rw [h.fresh hnew]
    rfl
  · exact h.kept

lemma Keeps.issue (h : Keeps P issued c) (hopen : c.connection = .true)
    (target cmd args : Option Json) {onReply : Option Cb}
    (hnew : ∀ cb, onReply = some cb → P c.nextSeqID cb) :
    Keeps P (issued + 1) (c.issue target cmd args onReply).1 := by
  constructor
  · intro hclosed
    rw [Client.issue, hopen] at hclosed
    exact absurd hclosed (by simp)
  · rw [Client.issue, h.next, increment_min]
  · intro k cb hk
    simp only [Client.issue] at hk
    by_cases hkey : k = c.nextSeqID
    · subst hkey
      rw [Function.update_self] at hk
      exact hnew cb hk
    · rw [Function.update_of_ne hkey] at hk
      exact h.kept k cb hk

lemma Keeps.replyhandler (h : Keeps P issued c) (data : Json) :
    Keeps P issued (c.replyhandler data).1 := by
  obtain ⟨hexp, hconn, hnext⟩ := c.replyhandler_frame data
  constructor
  · rw [hconn]
    exact h.fresh
  · rw [hnext, h.next]
  · rw [hexp]
    exact h.kept

lemma Keeps.replied (h : Keeps P issued c) (returned : Bool) :
    Keeps P issued (c.replied returned) := by
  rw [Client.replied]
  split
  · rename_i n hn
    split
    · constructor
      · exact h.fresh
      · exact h.next
      · intro k cb hk
        simp only at hk
        by_cases hkey : k = n
        · subst hkey
          exact absurd hk (by simp)
        · rw [Function.update_of_ne hkey] at hk
          exact h.kept k cb hk
    · exact ⟨h.fresh, h.next, h.kept⟩
  · exact h

end Client

end Headcrab
