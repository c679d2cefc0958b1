import Scshr.Media.RtpAssembler

/-! Every assembler call is a sequence of elementary changes, each with the
guard under which the code makes it.  Safety properties of whole runs are
proved on the elementary changes and never unfold the calls themselves. -/
namespace Scshr.Media.RtpAssembler

open Common Lib List

inductive Change : RtpAssembler → RtpAssembler → Prop where
  | release (state : RtpAssembler) (slot : UInt32) :
      Change state { state with pool := state.pool.release slot }
  | store (state : RtpAssembler) (ssrc ts : UInt32) (pkt : GroupPacket) (now : Int)
      (hfresh : state.recentlyFlushed.lookup (key ssrc ts) = none) :
      Change state (state.storePacket ssrc ts pkt now)
  | arm (state : RtpAssembler) (k : Key) (group : Group) (now : Int)
      (hfind : state.groups.lookup k = some group) : Change state (state.armDeadline k group now)
  | flushComplete (state : RtpAssembler) (k : Key) (group : Group) (now : Int)
      (hfind : state.groups.lookup k = some group)
      (hcomplete : groupComplete (state.lastMarkerSeq.lookup group.ssrc) group
        (sortedPackets group.pkts) = true) :
      Change state ((state.setDeadline k group 0).flushGroup k now)
  | flushMarked (state : RtpAssembler) (k : Key) (group : Group) (now : Int)
      (hfind : state.groups.lookup k = some group) (hcodec : state.codec ≠ .avc)
      (hmarker : group.hasMarker = true) : Change state (state.flushGroup k now)
  | drop (state : RtpAssembler) (k : Key) (group : Group) (reason : String) (now : Int)
      (hfind : state.groups.lookup k = some group) :
      Change state (dropGroup reason now (state, []) k).1
  | prune (state : RtpAssembler) (now : Int) :
      Change state { state with
        recentlyFlushed := state.recentlyFlushed.keepIf fun flushedAt =>
          now - flushedAt ≤ flushedDedupTtlNs }

abbrev Changes := Relation.ReflTransGen Change

variable {state next : RtpAssembler} {k other : Key} {now : Int} {P : RtpAssembler → Prop}

theorem flushGroup_codec (state : RtpAssembler) (k : Key) (now : Int) :
    (state.flushGroup k now).codec = state.codec := by
  unfold flushGroup
  split <;> rfl

theorem armDeadline_codec (state : RtpAssembler) (k : Key) (group : Group) (now : Int) :
    (state.armDeadline k group now).codec = state.codec := by
  unfold armDeadline setDeadline
  split <;> rfl

theorem dropGroup_codec (reason : String) (now : Int) (state : RtpAssembler × List UInt32)
    (k : Key) : (dropGroup reason now state k).1.codec = state.1.codec := by
  unfold dropGroup
  split <;> rfl

theorem Change.codec (h : Change state next) : next.codec = state.codec := by
  cases h with
  | release slot => rfl
  | store ssrc ts pkt now hfresh => rfl
  | arm k group now hfind => exact armDeadline_codec _ _ _ _
  | flushComplete k group now hfind hcomplete => exact flushGroup_codec _ _ _
  | flushMarked k group now hfind hcodec hmarker => exact flushGroup_codec _ _ _
  | drop k group reason now hfind => exact dropGroup_codec _ _ _ _
  | prune now => rfl

theorem Changes.codec (h : Changes state next) : next.codec = state.codec := by
  induction h with
  | refl => rfl
  | tail _ hstep ih => rw [hstep.codec, ih]

theorem Changes.invariant (hstep : ∀ state next, Change state next → P state → P next)
    (h : Changes state next) (hstate : P state) : P next := by
  induction h with
  | refl => exact hstate
  | tail _ hchange ih => exact hstep _ _ hchange ih

theorem flushReady_eq (state : RtpAssembler) (ssrc : UInt32) (now : Int) :
    state.flushReady ssrc now =
      match state.orderedKeys ssrc with
      | [] => state
      | k :: _ =>
          match state.groups.lookup k with
          | none => state
          | some group =>
              if groupComplete (state.lastMarkerSeq.lookup group.ssrc) group
                  (sortedPackets group.pkts) then
                ((state.setDeadline k group 0).flushGroup k now).flushReady ssrc now
              else state.armDeadline k group now := by
  rw [flushReady]
  cases state.orderedKeys ssrc with
  | nil => rfl
  | cons k rest =>
    dsimp only
    split
    · rename_i hnone
      rw [hnone]
    · rename_i group hfind
      rw [hfind]

/-- The changes that follow the call's own packet or drops: a deadline is armed
or a complete group is flushed, all at the time of the call. -/
inductive Settle (now : Int) : RtpAssembler → RtpAssembler → Prop where
  | arm (state : RtpAssembler) (k : Key) (group : Group)
      (hfind : state.groups.lookup k = some group) :
      Settle now state (state.armDeadline k group now)
  | flush (state : RtpAssembler) (k : Key) (group : Group)
      (hfind : state.groups.lookup k = some group)
      (hcomplete : groupComplete (state.lastMarkerSeq.lookup group.ssrc) group
        (sortedPackets group.pkts) = true) :
      Settle now state ((state.setDeadline k group 0).flushGroup k now)

abbrev Settles (now : Int) := Relation.ReflTransGen (Settle now)

theorem Settle.change (h : Settle now state next) : Change state next := by
  cases h with
  | arm k group hfind => exact .arm state k group now hfind
  | flush k group hfind hcomplete => exact .flushComplete state k group now hfind hcomplete

theorem Settles.changes (h : Settles now state next) :
    Changes state next :=
  Relation.ReflTransGen.mono (fun _ _ => Settle.change) _ _ h

theorem Settles.invariant (hstep : ∀ state next, Settle now state next → P state → P next)
    (h : Settles now state next) (hstate : P state) : P next := by
  induction h with
  | refl => exact hstate
  | tail _ hsettle ih => exact hstep _ _ hsettle ih

theorem settles_flushReady (state : RtpAssembler) (ssrc : UInt32) (now : Int) :
    Settles now state (state.flushReady ssrc now) := by
  induction state using flushReady.induct ssrc now with
  | case1 state hkeys =>
    rw [flushReady_eq, hkeys]
  | case2 state k rest hkeys hnone =>
    rw [flushReady_eq, hkeys]
    simp only [hnone]
    exact .refl
  | case3 state k rest hkeys group hfind hcomplete ih =>
    rw [flushReady_eq, hkeys]
    simp only [hfind, hcomplete, ↓reduceIte]
    exact .head (.flush state k group hfind hcomplete) ih
  | case4 state k rest hkeys group hfind hcomplete =>
    rw [flushReady_eq, hkeys]
    simp only [hfind, hcomplete]
    exact .single (.arm state k group hfind)

theorem changes_flushReady (state : RtpAssembler) (ssrc : UInt32) (now : Int) :
    Changes state (state.flushReady ssrc now) :=
  (settles_flushReady state ssrc now).changes

theorem armDeadline_lookup_ne (state : RtpAssembler) (group : Group) (now : Int) (hne : other ≠ k) :
    (state.armDeadline k group now).groups.lookup other = state.groups.lookup other := by
  unfold armDeadline setDeadline
  split
  · exact AList.lookup_insert_ne hne
  · rfl

theorem armMissingMarker_lookup_ne (state : RtpAssembler) (now : Int) (hne : other ≠ k) :
    (armMissingMarker now state k).groups.lookup other = state.groups.lookup other := by
  unfold armMissingMarker
  split
  · rfl
  · split
    · rfl
    · exact armDeadline_lookup_ne state _ now hne

theorem foldl_armMissingMarker_lookup (earlier : List Key) (state : RtpAssembler) (now : Int)
    (hnot : k ∉ earlier) :
    (earlier.foldl (armMissingMarker now) state).groups.lookup k = state.groups.lookup k := by
  induction earlier generalizing state with
  | nil => rfl
  | cons head tail ih =>
    obtain ⟨hhead, htail⟩ := not_or.mp (mt mem_cons.mpr hnot)
    rw [foldl_cons, ih _ htail, armMissingMarker_lookup_ne state now hhead]

theorem settles_armMissingMarker (state : RtpAssembler) (k : Key) (now : Int) :
    Settles now state (armMissingMarker now state k) := by
  unfold armMissingMarker
  split
  · exact .refl
  · rename_i other hfind
    split
    · exact .refl
    · exact .single (.arm state k other hfind)

theorem reflTransGen_foldl {step : RtpAssembler → RtpAssembler → Prop}
    (act : RtpAssembler → α → RtpAssembler) (items : List α)
    (hact : ∀ state item, Relation.ReflTransGen step state (act state item))
    (state : RtpAssembler) : Relation.ReflTransGen step state (items.foldl act state) := by
  induction items generalizing state with
  | nil => exact .refl
  | cons head tail ih => exact (hact state head).trans (ih _)

theorem not_mem_takeWhile_ne (k : Key) (keys : List Key) : k ∉ keys.takeWhile (· ≠ k) := by
  intro hmem
  have hall := all_takeWhile (p := (· ≠ k)) (l := keys)
  simpa using all_eq_true.mp hall k hmem

theorem settles_queueAvc (state : RtpAssembler) (k : Key) (group : Group) (now : Int)
    (hfind : state.groups.lookup k = some group) :
    Settles now state (state.queueAvc k group now) := by
  unfold queueAvc
  dsimp only
  generalize hearlier : (state.orderedKeys group.ssrc).takeWhile (· ≠ k) = earlier
  have hnot : k ∉ earlier := hearlier ▸ not_mem_takeWhile_ne k _
  have harmed : Settles now state (earlier.foldl (armMissingMarker now) state) :=
    reflTransGen_foldl _ earlier (fun state k => settles_armMissingMarker state k now) state
  have hfound := (foldl_armMissingMarker_lookup earlier state now hnot).trans hfind
  generalize earlier.foldl (armMissingMarker now) state = armed at *
  split
  · exact harmed
  · split
    · rename_i hcomplete
      exact (harmed.tail (.flush armed k group hfound hcomplete)).trans
        (settles_flushReady _ _ now)
    · exact harmed.tail (.arm armed k group hfound)

theorem storePacket_lookup (state : RtpAssembler) (ssrc ts : UInt32) (pkt : GroupPacket)
    (now : Int) : (state.storePacket ssrc ts pkt now).groups.lookup (key ssrc ts) =
      some (addPacket (state.findOrCreate ssrc ts now) pkt) :=
  AList.lookup_insert _

theorem queuePacket_cases (state : RtpAssembler) (ssrc ts : UInt32) (pkt : GroupPacket)
    (now : Int) :
    ((state.recentlyFlushed.lookup (key ssrc ts)).isSome ∧
      state.queuePacket ssrc ts pkt now = { state with pool := state.pool.release pkt.slot }) ∨
    (state.recentlyFlushed.lookup (key ssrc ts) = none ∧
      (((addPacket (state.findOrCreate ssrc ts now) pkt).hasMarker = false ∧
          state.queuePacket ssrc ts pkt now = state.storePacket ssrc ts pkt now) ∨
        (state.codec ≠ .avc ∧ (addPacket (state.findOrCreate ssrc ts now) pkt).hasMarker = true ∧
          state.queuePacket ssrc ts pkt now =
            (state.storePacket ssrc ts pkt now).flushGroup (key ssrc ts) now) ∨
        (state.codec = .avc ∧ Settles now (state.storePacket ssrc ts pkt now)
          (state.queuePacket ssrc ts pkt now)))) := by
  unfold queuePacket
  by_cases hflushed : (state.recentlyFlushed.lookup (key ssrc ts)).isSome
  · exact .inl ⟨hflushed, by rw [if_pos hflushed]⟩
  · right
    refine ⟨by simpa using hflushed, ?_⟩
    rw [if_neg hflushed]
    dsimp only
    split
    · rename_i hunmarked
      exact .inl ⟨by simpa using hunmarked, rfl⟩
    · rename_i hmarker
      right
      split
      · rename_i hcodec
        exact .inl ⟨hcodec, by simpa using hmarker, rfl⟩
      · rename_i hcodec
        exact .inr ⟨not_not.mp hcodec,
          settles_queueAvc _ _ _ now (storePacket_lookup state ssrc ts pkt now)⟩

theorem changes_queuePacket (state : RtpAssembler) (ssrc ts : UInt32) (pkt : GroupPacket)
    (now : Int) : Changes state (state.queuePacket ssrc ts pkt now) := by
  rcases queuePacket_cases state ssrc ts pkt now with
    ⟨-, heq⟩ | ⟨hfresh, ⟨-, heq⟩ | ⟨hcodec, hmarker, heq⟩ | ⟨-, hsettles⟩⟩
  · rw [heq]
    exact .single (.release state pkt.slot)
  · rw [heq]
    exact .single (.store state ssrc ts pkt now hfresh)
  · rw [heq]
    exact .tail (.single (.store state ssrc ts pkt now hfresh))
      (.flushMarked _ _ _ now (storePacket_lookup state ssrc ts pkt now) hcodec hmarker)
  · exact .head (.store state ssrc ts pkt now hfresh) hsettles.changes

theorem dropGroup_fst (reason : String) (now : Int) (state : RtpAssembler)
    (unblocked : List UInt32) (k : Key) :
    (dropGroup reason now (state, unblocked) k).1 = (dropGroup reason now (state, []) k).1 := by
  unfold dropGroup
  dsimp only
  split <;> rfl

theorem dropStale_invariant
    (hdrop : ∀ state k group reason, state.groups.lookup k = some group → P state →
      P (dropGroup reason now (state, []) k).1) (hstate : P state) : P (state.dropStale now).1 := by
  have hfold : ∀ (reason : String) (keys : List Key) (state : RtpAssembler × List UInt32),
      P state.1 → P (keys.foldl (dropGroup reason now) state).1 := by
    intro reason keys
    induction keys with
    | nil => exact fun _ hstate => hstate
    | cons k rest ih =>
      intro state hstate
      rw [foldl_cons]
      apply ih
      rw [dropGroup_fst]
      cases hfind : state.1.groups.lookup k with
      | none =>
        simp only [dropGroup, hfind]
        exact hstate
      | some group => exact hdrop state.1 k group reason hfind hstate
  unfold dropStale
  apply hfold
  exact hfold _ _ (state, []) hstate

theorem changes_dropStale (state : RtpAssembler) (now : Int) :
    Changes state (state.dropStale now).1 := by
  apply dropStale_invariant _ Relation.ReflTransGen.refl
  intro next k group reason hfind hchanges
  exact hchanges.tail (.drop next k group reason now hfind)

theorem evictStale_eq (state : RtpAssembler) (now : Int) :
    ∃ settled, Settles now (state.dropStale now).1 settled ∧ state.evictStale now =
      { settled with
        recentlyFlushed := settled.recentlyFlushed.keepIf fun flushedAt =>
          now - flushedAt ≤ flushedDedupTtlNs } :=
  ⟨_, reflTransGen_foldl (fun state ssrc => state.flushReady ssrc now)
    (setOrder (state.dropStale now).2) (fun state ssrc => settles_flushReady state ssrc now) _, rfl⟩

theorem changes_step (state : RtpAssembler) (op : AssemblerOp) :
    Changes state (state.step op) := by
  cases op with
  | queue ssrc ts pkt now => exact changes_queuePacket state ssrc ts pkt now
  | evict now =>
    obtain ⟨settled, hsettles, heq⟩ := evictStale_eq state now
    have hprune := Change.prune settled now
    rw [← heq] at hprune
    exact ((changes_dropStale state now).trans hsettles.changes).tail hprune

theorem changes_run (state : RtpAssembler) (ops : List AssemblerOp) :
    Changes state (state.run ops) :=
  reflTransGen_foldl RtpAssembler.step ops changes_step state

def EveryCall (P : RtpAssembler → AssemblerOp → Prop) : RtpAssembler → List AssemblerOp → Prop
  | _, [] => True
  | state, op :: rest => P state op ∧ EveryCall P (state.step op) rest

end Scshr.Media.RtpAssembler
