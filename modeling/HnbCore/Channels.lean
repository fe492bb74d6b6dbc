import HnbCore.Bytes
import HnbCore.Lib.Lru

/-!
# Channel subscriptions

`IsChannelSubscribed` looks in two sets of pending changes, a least recently used cache of positive
answers, a set of negative answers and the database, in this order. A flush writes the pending
changes to the database. It leaves the cache alone, so a removed channel that is still cached counts
as subscribed again from then on.
-/

namespace HnbCore

open Finset

inductive ChannelCall
  | isChannelSubscribed (name : Bytes)
  | addChannel (name : Bytes)
  | removeChannel (name : Bytes)
  | flush
  | evict (name : Bytes)

open ChannelCall

/-- What a call makes of a subscription. -/
def ChannelCall.changes (n : Bytes) (subscribed : Bool) : ChannelCall → Bool
  | .addChannel name => if name = n then true else subscribed
  | .removeChannel name => if name = n then false else subscribed
  | _ => subscribed

/-- The last change of the channel, or whether the database had it at the start. -/
def lastSubscription (db : Finset Bytes) (calls : List ChannelCall) (n : Bytes) : Bool :=
  calls.foldl (changes n) (decide (n ∈ db))

structure ChannelState where
  messagechanneldb : Finset Bytes
  setDirtyChannelsAdd : Finset Bytes
  setDirtyChannelsRemove : Finset Bytes
  setSubscribedChannelsAskedForFalse : Finset Bytes
  messageSubscribedChannelsCache : Lru Bytes Nat

namespace ChannelState

variable {s : ChannelState} {n : Bytes}

/-- After start-up nothing is pending and nothing was asked for. -/
def start (db : Finset Bytes) : ChannelState := ⟨db, ∅, ∅, ∅, Lru.empty 1000⟩

def isChannelSubscribed (s : ChannelState) (name : Bytes) : Bool × ChannelState :=
  if name ∈ s.setDirtyChannelsAdd then (true, s)
  else if name ∈ s.setDirtyChannelsRemove then (false, s)
  else if s.messageSubscribedChannelsCache.exists? name then (true, s)
  else if name ∈ s.setSubscribedChannelsAskedForFalse then (false, s)
  else if name ∈ s.messagechanneldb then
    (true, { s with
      messageSubscribedChannelsCache := s.messageSubscribedChannelsCache.put name 1 })
  else
    (false, { s with
      setSubscribedChannelsAskedForFalse := insert name s.setSubscribedChannelsAskedForFalse })

def addChannel (s : ChannelState) (name : Bytes) : ChannelState :=
  { s with
    setDirtyChannelsAdd := insert name s.setDirtyChannelsAdd
    setDirtyChannelsRemove := s.setDirtyChannelsRemove.erase name
    setSubscribedChannelsAskedForFalse := s.setSubscribedChannelsAskedForFalse.erase name }

def removeChannel (s : ChannelState) (name : Bytes) : ChannelState :=
  { s with
    setDirtyChannelsRemove := insert name s.setDirtyChannelsRemove
    setDirtyChannelsAdd := s.setDirtyChannelsAdd.erase name }

/-- `CMessageChannelDB::Flush`: the erasures come before the writes. -/
def flush (s : ChannelState) : ChannelState :=
  { s with
    messagechanneldb := (s.messagechanneldb \ s.setDirtyChannelsRemove) ∪ s.setDirtyChannelsAdd
    setDirtyChannelsAdd := ∅
    setDirtyChannelsRemove := ∅
    setSubscribedChannelsAskedForFalse := ∅ }

def step (s : ChannelState) : ChannelCall → ChannelState
  | .isChannelSubscribed name => (s.isChannelSubscribed name).2
  | .addChannel name => s.addChannel name
  | .removeChannel name => s.removeChannel name
  | .flush => s.flush
  | .evict name =>
      { s with messageSubscribedChannelsCache := s.messageSubscribedChannelsCache.erase name }

def run (s : ChannelState) (calls : List ChannelCall) : ChannelState := calls.foldl step s

/-- No channel that waits for its removal is cached. -/
def Clean (s : ChannelState) : Prop :=
  ∀ n ∈ s.setDirtyChannelsRemove, s.messageSubscribedChannelsCache.exists? n = false

instance : Decidable s.Clean := inferInstanceAs (Decidable (∀ n ∈ s.setDirtyChannelsRemove, _))

/-- Every flush of the run is made in a clean state. -/
def FlushesClean : ChannelState → List ChannelCall → Prop
  | _, [] => True
  | s, call :: calls => (call matches .flush → s.Clean) ∧ FlushesClean (s.step call) calls

/-- What the parts of the state know about the subscriptions. -/
structure Follows (s : ChannelState) (subscribed : Bytes → Bool) : Prop where
  pending : ∀ n, subscribed n = true ↔ n ∈ s.setDirtyChannelsAdd ∨
    n ∈ s.messagechanneldb ∧ n ∉ s.setDirtyChannelsRemove
  apart : ∀ n ∈ s.setDirtyChannelsAdd, n ∉ s.setDirtyChannelsRemove
  cached : s.messageSubscribedChannelsCache.Backed (· ∈ s.messagechanneldb)
  asked : ∀ n ∈ s.setSubscribedChannelsAskedForFalse, n ∉ s.messagechanneldb

variable {subscribed : Bytes → Bool}

section

variable (h : s.Follows subscribed)
include h

theorem Follows.answer (n : Bytes) :
    (s.isChannelSubscribed n).1 = subscribed n := by
  have hpending := h.pending n
  have hcached := h.cached n
  have hasked := h.asked n
  rw [Bool.eq_iff_iff, hpending]
  unfold isChannelSubscribed
  grind

theorem Follows.isChannelSubscribed (name : Bytes) :
    (s.isChannelSubscribed name).2.Follows subscribed := by
  unfold ChannelState.isChannelSubscribed
  split_ifs with hadd hremove hcache hasked hdb
  · exact h
  · exact h
  · exact h
  · exact h
  · exact { h with cached := h.cached.put hdb }
  · refine { h with asked := fun n hn => ?_ }
    rcases mem_insert.mp hn with rfl | hn
    · exact hdb
    · exact h.asked n hn

theorem Follows.addChannel (name : Bytes) :
    (s.addChannel name).Follows
      fun n => (ChannelCall.addChannel name).changes n (subscribed n) where
  pending n := by
    have hn := h.pending n
    simp only [changes, ChannelState.addChannel, mem_insert, mem_erase]
    grind
  apart n hn := by
    have hapart := h.apart n
    simp only [ChannelState.addChannel, mem_insert, mem_erase] at hn ⊢
    grind
  cached := h.cached
  asked n hn := h.asked n (mem_of_mem_erase hn)

theorem Follows.removeChannel (name : Bytes) :
    (s.removeChannel name).Follows
      fun n => (ChannelCall.removeChannel name).changes n (subscribed n) where
  pending n := by
    have hn := h.pending n
    simp only [changes, ChannelState.removeChannel, mem_insert,
      mem_erase]
    grind
  apart n hn := by
    have hapart := h.apart n
    simp only [ChannelState.removeChannel, mem_insert, mem_erase] at hn ⊢
    grind
  cached := h.cached
  asked := h.asked

theorem Follows.flush (hclean : s.Clean) :
    s.flush.Follows subscribed where
  pending n := by
    have hn := h.pending n
    simp only [ChannelState.flush, mem_union, mem_sdiff, notMem_empty]
    tauto
  apart n hn := absurd hn (notMem_empty n)
  cached n hn := by
    have hdb := h.cached n hn
    have hkept : n ∉ s.setDirtyChannelsRemove := fun hmem =>
      Bool.eq_false_iff.mp (hclean n hmem) hn
    exact mem_union_left _ (mem_sdiff.mpr ⟨hdb, hkept⟩)
  asked n hn := absurd hn (notMem_empty n)

theorem Follows.step {call : ChannelCall} (hclean : call matches .flush → s.Clean) :
    (s.step call).Follows fun n => call.changes n (subscribed n) := by
  cases call with
  | isChannelSubscribed name => exact h.isChannelSubscribed name
  | addChannel name => exact h.addChannel name
  | removeChannel name => exact h.removeChannel name
  | flush => exact h.flush (hclean rfl)
  | evict name => exact { h with cached := h.cached.erase_of_update fun _ _ hdb => hdb }

theorem Follows.run {calls : List ChannelCall} (hclean : s.FlushesClean calls) :
    (s.run calls).Follows fun n => calls.foldl (changes n) (subscribed n) := by
  induction calls generalizing s subscribed with
  | nil => exact h
  | cons call calls ih => exact ih (h.step hclean.1) hclean.2

end

theorem follows_start (db : Finset Bytes) : (start db).Follows fun n => decide (n ∈ db) where
  pending n := by simp [start]
  apart n hn := absurd hn (notMem_empty n)
  cached := Lru.backed_empty 1000 _
  asked n hn := absurd hn (notMem_empty n)

/-- A flush answers rightly afterwards only if it was clean. -/
theorem Follows.flush_answers_iff (h : s.Follows subscribed) :
    (∀ n, (s.flush.isChannelSubscribed n).1 = subscribed n) ↔ s.Clean := by
  refine ⟨fun hanswers n hn => ?_, fun hclean => (h.flush hclean).answer⟩
  have hnot : subscribed n ≠ true := by
    rw [ne_eq, h.pending n]
    exact fun hyes => hyes.elim (fun hadd => h.apart n hadd hn) fun hdb => hdb.2 hn
  rw [Bool.eq_false_iff]
  intro hcached
  apply hnot
  rw [← hanswers n]
  simp [ChannelState.isChannelSubscribed, ChannelState.flush, hcached]

/-- In a run with clean flushes the answers are those of the last changes, and one more flush keeps
them if and only if it is clean as well. -/
theorem channels_followed_iff (db : Finset Bytes) (calls : List ChannelCall)
    (hclean : (start db).FlushesClean calls) :
    (∀ n, (((start db).run calls).isChannelSubscribed n).1 = lastSubscription db calls n) ∧
      ((∀ n, (((start db).run (calls ++ [.flush])).isChannelSubscribed n).1 =
        lastSubscription db (calls ++ [.flush]) n) ↔ ((start db).run calls).Clean) := by
  have hrun := (follows_start db).run hclean
  refine ⟨hrun.answer, ?_⟩
  rw [← hrun.flush_answers_iff]
  simp only [ChannelState.run, lastSubscription, List.foldl_append]
  exact Iff.rfl

theorem gold_channel_followed :
    (((start {str "GOLD!"}).run [.removeChannel (str "GOLD!"),
      .flush]).isChannelSubscribed (str "GOLD!")).1 = false :=
  (channels_followed_iff {str "GOLD!"} [.removeChannel (str "GOLD!"), .flush]
    ⟨nofun, fun _ => by decide +kernel, trivial⟩).1 (str "GOLD!")

/-- Asked for, removed and flushed, and still subscribed. -/
theorem removed_channel_subscribed :
    (((start {str "GOLD!"}).run [.isChannelSubscribed (str "GOLD!"),
        .removeChannel (str "GOLD!"), .flush]).isChannelSubscribed (str "GOLD!")).1 = true ∧
      lastSubscription {str "GOLD!"} [.isChannelSubscribed (str "GOLD!"), .removeChannel (str "GOLD!"),
        .flush] (str "GOLD!") = false := by
  decide +kernel

end ChannelState

end HnbCore
