import Mathlib.Data.List.Infix
import Mathlib.Logic.Function.Basic

/-! Two queues with one writer. Messages of numbered senders go through one of the queues; whatever
the writer takes next, the messages of each sender are written in the order in which it sent them,
until the writer stops. -/
namespace Multiplexer

variable {α : Type*}

/-- A message in a queue. The sender is history. -/
structure Item (α : Type*) where
  sender : Option ℕ
  message : α

inductive Writer (α : Type*) where
  | selects
  | holds (item : Item α)
  | writes (item : Item α)
  | stopped

def Writer.held : Writer α → List (Item α)
  | .holds item | .writes item => [item]
  | _ => []

inductive Lane where
  | control
  | data
  deriving DecidableEq

structure Lanes (α : Type*) where
  control : List (Item α)
  data : List (Item α)
  writer : Writer α
  written : List (Item α)

def sentBy (i : ℕ) (items : List (Item α)) : List α :=
  items.filterMap fun item => if item.sender = some i then some item.message else none

theorem sentBy_append (i : ℕ) (as bs : List (Item α)) :
    sentBy i (as ++ bs) = sentBy i as ++ sentBy i bs :=
  List.filterMap_append

theorem sentBy_singleton_self (i : ℕ) (message : α) : sentBy i [⟨some i, message⟩] = [message] := by
  simp [sentBy]

theorem sentBy_singleton_of_ne {i : ℕ} {item : Item α} (h : item.sender ≠ some i) :
    sentBy i [item] = [] := by
  simp [sentBy, h]

theorem mem_sentBy {i : ℕ} {items : List (Item α)} {message : α} :
    message ∈ sentBy i items ↔ ⟨some i, message⟩ ∈ items := by
  constructor
  · intro h
    obtain ⟨item, hitem, hsome⟩ := List.mem_filterMap.mp h
    split_ifs at hsome with hsender
    obtain rfl := Option.some.inj hsome
    rw [← hsender]
    exact hitem
  · intro h
    exact List.mem_filterMap.mpr ⟨_, h, by simp⟩

namespace Lanes

def empty : Lanes α := ⟨[], [], .selects, []⟩

def queue (l : Lanes α) : Lane → List (Item α)
  | .control => l.control
  | .data => l.data

def push (l : Lanes α) (item : Item α) : Lane → Lanes α
  | .control => { l with control := l.control ++ [item] }
  | .data => { l with data := l.data ++ [item] }

def take (l : Lanes α) : Lane → Option (Lanes α)
  | .control =>
      match l.writer, l.control with
      | .selects, item :: rest => some { l with control := rest, writer := .holds item }
      | _, _ => none
  | .data =>
      match l.writer, l.data with
      | .selects, item :: rest => some { l with data := rest, writer := .holds item }
      | _, _ => none

def check (l : Lanes α) (ok : Bool) : Option (Lanes α) :=
  match l.writer with
  | .holds item => some { l with writer := if ok then .writes item else .stopped }
  | _ => none

/-- A write that fails stops the writer. -/
def write (l : Lanes α) (ok : Bool) : Option (Lanes α) :=
  match l.writer with
  | .writes item =>
      some (if ok then { l with written := l.written ++ [item], writer := .selects }
        else { l with writer := .stopped })
  | _ => none

def stop (l : Lanes α) : Option (Lanes α) :=
  match l.writer with
  | .selects => some { l with writer := .stopped }
  | _ => none

/-- All messages that have not been lost. -/
def items (l : Lanes α) : List (Item α) := l.written ++ l.writer.held ++ l.data

end Lanes

/-- The lanes carry what each sender has sent so far; the messages of others have the property
`Q`. -/
structure Carries (Q : α → Prop) (l : Lanes α) (sent : ℕ → List α) : Prop where
  control : ∀ item ∈ l.control, item.sender = none ∧ Q item.message
  others : ∀ item ∈ l.items, item.sender = none → Q item.message
  fifo : l.writer ≠ .stopped → ∀ i, sentBy i l.items = sent i
  written : ∀ i, sentBy i l.written <+: sent i

variable {Q : α → Prop} {l l' : Lanes α} {sent : ℕ → List α}

theorem carries_empty : Carries Q (.empty : Lanes α) fun _ => [] where
  control := fun _ h => by cases h
  others := fun _ h => by cases h
  fifo := fun _ _ => rfl
  written := fun _ => List.prefix_rfl

namespace Carries

theorem push_other (h : Carries Q l sent) {message : α} (hQ : Q message) (lane : Lane) :
    Carries Q (l.push ⟨none, message⟩ lane) sent := by
  cases lane with
  | control =>
    refine ⟨fun item hitem => ?_, h.others, h.fifo, h.written⟩
    rcases List.mem_append.mp hitem with hitem | hitem
    · exact h.control item hitem
    · rw [List.mem_singleton.mp hitem]
      exact ⟨rfl, hQ⟩
  | data =>
    have hitems : (l.push ⟨none, message⟩ .data).items = l.items ++ [⟨none, message⟩] :=
      (List.append_assoc _ _ _).symm
    refine ⟨h.control, fun item hitem hnone => ?_, fun hwriter i => ?_, h.written⟩
    · rw [hitems] at hitem
      rcases List.mem_append.mp hitem with hitem | hitem
      · exact h.others item hitem hnone
      · rw [List.mem_singleton.mp hitem]
        exact hQ
    · rw [hitems, sentBy_append, sentBy_singleton_of_ne (by simp), List.append_nil]
      exact h.fifo hwriter i

theorem push_sender (h : Carries Q l sent) (i : ℕ) (message : α) :
    Carries Q (l.push ⟨some i, message⟩ .data)
      (Function.update sent i (sent i ++ [message])) := by
  have hitems : (l.push ⟨some i, message⟩ .data).items = l.items ++ [⟨some i, message⟩] :=
    (List.append_assoc _ _ _).symm
  refine ⟨h.control, fun item hitem hnone => ?_, fun hwriter j => ?_, fun j => ?_⟩
  · rw [hitems] at hitem
    rcases List.mem_append.mp hitem with hitem | hitem
    · exact h.others item hitem hnone
    · rw [List.mem_singleton.mp hitem] at hnone
      cases hnone
  · rw [hitems, sentBy_append, h.fifo hwriter j]
    by_cases hj : j = i
    · rw [hj, Function.update_self, sentBy_singleton_self]
    · have hne : (some i : Option ℕ) ≠ some j := fun heq => hj (Option.some.inj heq).symm
      rw [Function.update_of_ne hj, sentBy_singleton_of_ne hne, List.append_nil]
  · by_cases hj : j = i
    · rw [hj, Function.update_self]
      exact (h.written i).trans (List.prefix_append _ _)
    · rw [Function.update_of_ne hj]
      exact h.written j

theorem moves (h : Carries Q l sent) (hcontrol : l'.control ⊆ l.control)
    (hitems : ∀ item ∈ l'.items, item ∈ l.items ∨ item ∈ l.control)
    (hfifo : l'.writer ≠ .stopped → l.writer ≠ .stopped ∧ ∀ i, sentBy i l'.items = sentBy i l.items)
    (hwritten : ∀ i, sentBy i l'.written <+: sent i) : Carries Q l' sent where
  control := fun item hitem => h.control item (hcontrol hitem)
  others := by
    intro item hitem hnone
    rcases hitems item hitem with hitem | hitem
    · exact h.others item hitem hnone
    · exact (h.control item hitem).2
  fifo := by
    intro hwriter i
    obtain ⟨hrunning, hsame⟩ := hfifo hwriter
    rw [hsame i]
    exact h.fifo hrunning i
  written := hwritten

theorem stops (h : Carries Q l sent) : Carries Q { l with writer := .stopped } sent := by
  refine h.moves (fun _ hitem => hitem) (fun item hitem => .inl ?_)
    (fun hwriter => absurd rfl hwriter) h.written
  have hsublist : ({ l with writer := .stopped } : Lanes α).items.Sublist l.items :=
    (List.Sublist.append_left (List.nil_sublist _) l.written).append_right l.data
  exact hsublist.subset hitem

theorem take (h : Carries Q l sent) {lane : Lane} (htake : l.take lane = some l') :
    Carries Q l' sent := by
  cases lane with
  | control =>
    unfold Lanes.take at htake
    dsimp only at htake
    split at htake
    · next item rest hwriter hcontrol =>
      obtain rfl := Option.some.inj htake
      have hmem : item ∈ l.control := by simp [hcontrol]
      have hnone := (h.control item hmem).1
      refine h.moves (fun x hx => by simp [hcontrol, hx]) (fun x hx => ?_) (fun _ => ?_) h.written
      · simp only [Lanes.items, Writer.held, List.mem_append, List.mem_singleton] at hx ⊢
        rcases hx with (hx | rfl) | hx
        · exact .inl (.inl (.inl hx))
        · exact .inr hmem
        · exact .inl (.inr hx)
      · refine ⟨by simp [hwriter], fun i => ?_⟩
        have hitem : sentBy i [item] = [] := sentBy_singleton_of_ne (by simp [hnone])
        rw [Lanes.items, Lanes.items, hwriter]
        simp only [Writer.held, sentBy_append, hitem, List.append_nil]
    · cases htake
  | data =>
    unfold Lanes.take at htake
    dsimp only at htake
    split at htake
    · next item rest hwriter hdata =>
      obtain rfl := Option.some.inj htake
      have hitems : ({ l with data := rest, writer := .holds item } : Lanes α).items = l.items := by
        simp [Lanes.items, Writer.held, hwriter, hdata]
      refine h.moves (fun _ hx => hx) (fun x hx => .inl (hitems ▸ hx)) (fun _ => ?_) h.written
      exact ⟨by simp [hwriter], fun i => by rw [hitems]⟩
    · cases htake

theorem check (h : Carries Q l sent) {ok : Bool} (hcheck : l.check ok = some l') :
    Carries Q l' sent := by
  unfold Lanes.check at hcheck
  split at hcheck
  · next item hwriter =>
    obtain rfl := Option.some.inj hcheck
    cases ok with
    | false => exact h.stops
    | true =>
      have hitems : ({ l with writer := .writes item } : Lanes α).items = l.items := by
        simp [Lanes.items, Writer.held, hwriter]
      refine h.moves (fun _ hx => hx) (fun x hx => .inl (hitems ▸ hx)) (fun _ => ?_) h.written
      exact ⟨by simp [hwriter], fun i => congrArg (sentBy i) hitems⟩
  · cases hcheck

theorem write (h : Carries Q l sent) {ok : Bool} (hwrite : l.write ok = some l') :
    Carries Q l' sent := by
  unfold Lanes.write at hwrite
  split at hwrite
  · next item hwriter =>
    obtain rfl := Option.some.inj hwrite
    cases ok with
    | false => exact h.stops
    | true =>
      have hrunning : l.writer ≠ .stopped := by simp [hwriter]
      have hitems : ({ l with written := l.written ++ [item], writer := .selects } :
          Lanes α).items = l.items := by
        simp [Lanes.items, Writer.held, hwriter]
      refine h.moves (fun _ hx => hx) (fun x hx => .inl (hitems ▸ hx)) (fun _ => ?_) fun i => ?_
      · exact ⟨hrunning, fun i => congrArg (sentBy i) hitems⟩
      · have hall := h.fifo hrunning i
        rw [← hall, Lanes.items, hwriter, sentBy_append]
        exact List.prefix_append _ _
  · cases hwrite

theorem stop (h : Carries Q l sent) (hstop : l.stop = some l') : Carries Q l' sent := by
  unfold Lanes.stop at hstop
  split at hstop
  · obtain rfl := Option.some.inj hstop
    exact h.stops
  · cases hstop

end Carries

end Multiplexer
