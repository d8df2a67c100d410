import Xylem.Http.Pool

namespace Xylem.Http

open Lib List Option HttpPool HttpPoolEntry

variable {κ : Type} (s : HttpPool κ)

/-- The transports that the pool holds. -/
def HttpPool.stored : List Nat := s.entries.flatMap fun entry => entry.conns.map HttpIdleConn.transport

/-- Every transport dialled is with a request, in the pool or closed, and that once; the bounds of the pool hold; and
what it holds lies under the key that it was given back under. -/
structure HttpPool.Owned : Prop where
  once : ∀ t, s.held.count t + s.stored.count t + s.closed.count t = if t < s.dialled then 1 else 0
  keys : (s.entries.map HttpPoolEntry.key).Nodup
  hosts : s.entries.length ≤ poolMaxHosts
  idle : ∀ entry ∈ s.entries, entry.conns.length ≤ poolMaxIdlePerHost
  filed : ∀ entry ∈ s.entries, ∀ conn ∈ entry.conns, s.released conn.transport = some (entry.key, conn.idleSince)

variable {entries : List (HttpPoolEntry κ)} {key : κ} {x : Nat} {act : HttpPoolAct κ} {s t : HttpPool κ}
  {before after : List (HttpPoolEntry κ)} {entry changed : HttpPoolEntry κ}

namespace HttpPool

theorem stored_count (split : s.entries = before ++ entry :: after) (x : Nat) :
    s.stored.count x = (entry.conns.map HttpIdleConn.transport).count x +
      ((before ++ after).flatMap fun entry => entry.conns.map HttpIdleConn.transport).count x := by
  rw [stored, split, flatMap_append, flatMap_cons, flatMap_append]
  simp only [count_append]
  omega

theorem mem_stored {conn : HttpIdleConn} (isIn : entry ∈ s.entries) (inside : conn ∈ entry.conns) :
    conn.transport ∈ s.stored :=
  mem_flatMap.mpr ⟨entry, isIn, mem_map_of_mem inside⟩

section

variable (owned : s.Owned)
include owned

namespace Owned

/-- One entry changes, and the transports in it go elsewhere or come from there. -/
theorem replace (split : s.entries = before ++ entry :: after)
    (is : t.entries = before ++ changed :: after) (key : changed.key = entry.key)
    (few : changed.conns.length ≤ poolMaxIdlePerHost) (dialled : t.dialled = s.dialled)
    (moved : ∀ x, t.held.count x + (changed.conns.map HttpIdleConn.transport).count x + t.closed.count x =
      s.held.count x + (entry.conns.map HttpIdleConn.transport).count x + s.closed.count x)
    (filed : ∀ conn ∈ changed.conns, t.released conn.transport = some (changed.key, conn.idleSince))
    (kept : ∀ other ∈ before ++ after, ∀ conn ∈ other.conns, t.released conn.transport = s.released conn.transport) :
    t.Owned := by
  have member : ∀ other, other ∈ t.entries → other = changed ∨ other ∈ before ++ after := by
    intro other isIn
    rw [is, mem_append, mem_cons] at isIn
    rw [mem_append]
    tauto
  have old : ∀ other ∈ before ++ after, other ∈ s.entries := by
    intro other isIn
    rw [split, mem_append, mem_cons]
    rw [mem_append] at isIn
    tauto
  refine ⟨fun x => ?_, ?_, ?_, fun other isIn => ?_, fun other isIn => ?_⟩
  · have same := moved x
    rw [dialled, ← owned.once x, stored_count split, stored_count is]
    omega
  · have keys := owned.keys
    rw [split, map_append, map_cons, ← key] at keys
    rw [is, map_append, map_cons]
    exact keys
  · have hosts := owned.hosts
    rw [split, length_append, length_cons] at hosts
    rw [is, length_append, length_cons]
    exact hosts
  · rcases member other isIn with rfl | earlier
    · exact few
    · exact owned.idle other (old other earlier)
  · rcases member other isIn with rfl | earlier
    · exact filed
    · intro conn inside
      rw [kept other earlier conn inside]
      exact owned.filed other (old other earlier) conn inside

theorem congr (entries : t.entries = s.entries) (held : t.held = s.held)
    (closed : t.closed = s.closed) (dialled : t.dialled = s.dialled) (released : t.released = s.released) : t.Owned := by
  obtain ⟨once, keys, hosts, idle, filed⟩ := owned
  refine ⟨fun x => ?_, ?_, ?_, ?_, ?_⟩
  · rw [stored, entries, held, closed, dialled]
    exact once x
  · rw [entries]
    exact keys
  · rw [entries]
    exact hosts
  · rw [entries]
    exact idle
  · rw [entries, released]
    exact filed

theorem held_only (held : x ∈ s.held) : s.held.count x = 1 ∧ s.stored.count x = 0 ∧ s.closed.count x = 0 := by
  have once := owned.once x
  have positive := count_pos_iff.mpr held
  split at once <;> omega

theorem closeTransport (held : x ∈ s.held) : (s.closeTransport x).Owned := by
  obtain ⟨once, keys, hosts, idle, filed⟩ := owned
  refine ⟨fun y => ?_, keys, hosts, idle, filed⟩
  refine Eq.trans ?_ (once y)
  show (s.held.erase x).count y + s.stored.count y + (x :: s.closed).count y = _
  by_cases same : y = x
  · subst same
    have positive := count_pos_iff.mpr held
    rw [count_erase_self, count_cons_self]
    omega
  · rw [count_erase_of_ne same, count_cons_of_ne (Ne.symm same)]

theorem insert (new : key ∉ s.entries.map HttpPoolEntry.key)
    (room : s.entries.length < poolMaxHosts) : { s with entries := s.entries ++ [fresh key] }.Owned := by
  obtain ⟨once, keys, hosts, idle, filed⟩ := owned
  refine ⟨fun x => ?_, ?_, ?_, fun other isIn => ?_, fun other isIn => ?_⟩
  · have same : ({ s with entries := s.entries ++ [fresh key] } : HttpPool κ).stored = s.stored := by
      simp [stored, fresh]
    rw [same]
    exact once x
  · rw [map_append]
    refine keys.append (nodup_singleton _) ?_
    intro other isIn is
    rw [map_singleton, mem_singleton] at is
    exact new (show key ∈ _ from (show other = key from is) ▸ isIn)
  · rw [length_append, length_singleton]
    exact room
  · rcases mem_append.mp isIn with earlier | last
    · exact idle other earlier
    · rw [mem_singleton.mp last]
      exact Nat.zero_le _
  · rcases mem_append.mp isIn with earlier | last
    · exact filed other earlier
    · rw [mem_singleton.mp last]
      nofun

theorem clear : s.clear.Owned := by
  refine ⟨fun x => ?_, .nil, Nat.zero_le _, nofun, nofun⟩
  show s.held.count x + 0 + (s.stored ++ s.closed).count x = _
  rw [count_append, ← Nat.add_assoc]
  exact owned.once x

theorem dial : ({ s with held := s.dialled :: s.held, dialled := s.dialled + 1 } : HttpPool κ).Owned := by
  refine ⟨fun x => ?_, owned.keys, owned.hosts, owned.idle, owned.filed⟩
  show (s.dialled :: s.held).count x + s.stored.count x + s.closed.count x = if x < s.dialled + 1 then 1 else 0
  have once := owned.once x
  by_cases new : x = s.dialled
  · subst new
    rw [if_neg (Nat.lt_irrefl _)] at once
    rw [count_cons_self, if_pos (Nat.lt_succ_self _)]
    omega
  · rw [count_cons_of_ne (Ne.symm new)]
    split at once <;> split <;> omega

end Owned

end

end HttpPool

variable [DecidableEq κ] {s : HttpPool κ}

theorem httpPoolFindEntry_some (found : httpPoolFindEntry entries key = some entry)
    (change : HttpPoolEntry κ → HttpPoolEntry κ) :
    ∃ before after, entries = before ++ entry :: after ∧ entry.key = key ∧
      updateEntry key change entries = before ++ change entry :: after := by
  induction entries with
  | nil => cases found
  | cons first rest ih =>
    by_cases is : first.key = key
    · rw [httpPoolFindEntry, List.find?_cons_of_pos (by simpa using is)] at found
      cases found
      exact ⟨[], rest, rfl, is, by rw [updateEntry, if_pos is]; rfl⟩
    · rw [httpPoolFindEntry, List.find?_cons_of_neg (by simpa using is)] at found
      obtain ⟨before, after, split, same, updated⟩ := ih found
      exact ⟨first :: before, after, by rw [split]; rfl, same, by rw [updateEntry, if_neg is, updated]; rfl⟩

theorem httpPoolFindEntry_none (none : httpPoolFindEntry entries key = none) : key ∉ entries.map HttpPoolEntry.key := by
  rintro member
  obtain ⟨entry, isIn, is⟩ := mem_map.mp member
  have not := List.find?_eq_none.mp none entry isIn
  simp [is] at not

/-- What the scan closes, hands out and leaves is what was there. -/
theorem httpPoolScan_spec (now : UInt64) (conns : List HttpIdleConn) : conns.map HttpIdleConn.transport =
      (httpPoolScan now conns).1 ++ ((httpPoolScan now conns).2.1.toList ++
        (httpPoolScan now conns).2.2.map HttpIdleConn.transport) ∧
    (∀ conn ∈ (httpPoolScan now conns).2.2, conn ∈ conns) ∧
    ∀ t, (httpPoolScan now conns).2.1 = some t →
      ∃ conn ∈ conns, conn.transport = t ∧ now - conn.idleSince ≤ poolIdleTimeoutMs := by
  induction conns with
  | nil => exact ⟨rfl, nofun, nofun⟩
  | cons conn rest ih =>
    obtain ⟨same, left, fresh⟩ := ih
    rw [httpPoolScan]
    split
    · refine ⟨by rw [map_cons, same]; rfl, fun other member => mem_cons_of_mem _ (left other member), ?_⟩
      intro t found
      obtain ⟨other, member, is⟩ := fresh t found
      exact ⟨other, mem_cons_of_mem _ member, is⟩
    · rename_i inTime
      refine ⟨rfl, fun other member => mem_cons_of_mem _ member, ?_⟩
      rintro t found
      exact ⟨conn, mem_cons_self .., Option.some.inj found, UInt64.not_lt.mp inTime⟩

namespace HttpPool

section

variable (owned : s.Owned)
include owned

theorem Owned.acquire (key : κ) (now : UInt64) (creates : Bool) : (s.acquire key now creates).2.Owned := by
  unfold HttpPool.acquire
  split
  · exact owned
  dsimp only
  split
  · exact owned.congr rfl rfl rfl rfl rfl
  · rename_i entry found
    obtain ⟨same, left, -⟩ := httpPoolScan_spec now entry.conns.reverse
    generalize httpPoolScan now entry.conns.reverse = scan at same left
    obtain ⟨stale, handed, rest⟩ := scan
    dsimp only at same left ⊢
    obtain ⟨before, after, split, is, updated⟩ := httpPoolFindEntry_some found fun entry =>
      { entry with conns := rest.reverse }
    have member : entry ∈ s.entries := by rw [split]; exact mem_append_right _ (mem_cons_self ..)
    refine owned.replace split updated rfl ?_ rfl ?_ ?_ fun _ _ _ _ => rfl
    · have lengths := congrArg List.length same
      have few := owned.idle entry member
      simp only [length_map, length_reverse, length_append] at lengths ⊢
      omega
    · intro x
      have counts := congrArg (List.count x) same
      rw [map_reverse, count_reverse] at counts
      simp only [count_append, map_reverse, count_reverse] at counts ⊢
      omega
    · intro conn inside
      exact owned.filed entry member conn (mem_reverse.mp (left conn (mem_reverse.mp inside)))

theorem Owned.store (held : x ∈ s.held)
    (found : httpPoolFindEntry s.entries key = some entry) (now : UInt64) (grows : Bool) :
    (s.store entry x now grows).Owned := by
  have only := owned.held_only held
  have elsewhere : ∀ other ∈ s.entries, ∀ conn ∈ other.conns, conn.transport ≠ x := by
    intro other isIn conn inside is
    have stored := count_pos_iff.mpr (mem_stored isIn inside)
    rw [is] at stored
    omega
  have isIn : entry ∈ s.entries := List.mem_of_find?_eq_some found
  have is : entry.key = key := by simpa using List.find?_some found
  have few := owned.idle entry isIn
  unfold HttpPool.store
  dsimp only
  -- What is evicted is the front of the entry, and it leaves room for one connection.
  have parts : ∃ evicted rest, (if poolMaxIdlePerHost ≤ entry.conns.length then entry.conns.take 1 else []) = evicted ∧
      entry.conns.drop evicted.length = rest ∧ entry.conns = evicted ++ rest ∧ rest.length < poolMaxIdlePerHost := by
    refine ⟨_, _, rfl, rfl, ?_⟩
    unfold poolMaxIdlePerHost at few ⊢
    split
    · rename_i many
      rw [length_take, Nat.min_eq_left (by omega)]
      refine ⟨(take_append_drop 1 _).symm, ?_⟩
      rw [length_drop]
      omega
    · exact ⟨rfl, by rw [length_nil, drop_zero]; omega⟩
  obtain ⟨evicted, rest, evicts, rests, splits, room⟩ := parts
  rw [evicts, rests]
  have still : ∀ conn ∈ rest, conn ∈ entry.conns := by
    intro conn inside
    rw [splits]
    exact mem_append_right _ inside
  split
  · obtain ⟨before, after, split, -, updated⟩ := httpPoolFindEntry_some (is ▸ found) fun entry =>
      { entry with conns := rest }
    have dropped : ({ s with
        closed := evicted.map HttpIdleConn.transport ++ s.closed
        entries := updateEntry entry.key (fun entry => { entry with conns := rest }) s.entries } : HttpPool κ).Owned := by
      refine owned.replace split updated rfl (Nat.le_of_lt room) rfl ?_ ?_ fun _ _ _ _ => rfl
      · intro y
        rw [splits, map_append]
        simp only [count_append]
        omega
      · intro conn inside
        exact owned.filed entry isIn conn (still conn inside)
    exact dropped.closeTransport held
  · obtain ⟨before, after, split, -, updated⟩ := httpPoolFindEntry_some (is ▸ found) fun old =>
      { old with
        conns := rest ++ [⟨x, now⟩]
        cap := if entry.cap ≤ rest.length then min (if entry.cap = 0 then 4 else entry.cap * 2) poolMaxIdlePerHost
          else entry.cap }
    refine owned.replace split updated rfl ?_ rfl ?_ ?_ ?_
    · rw [length_append, length_singleton]
      exact room
    · intro y
      rw [splits, map_append, map_append]
      simp only [count_append, map_singleton]
      by_cases same : y = x
      · subst same
        rw [count_erase_self, count_singleton_self]
        omega
      · rw [count_erase_of_ne same, count_eq_zero_of_not_mem (a := y) (l := [x]) (by simpa using same)]
        omega
    · intro conn inside
      rcases mem_append.mp inside with earlier | last
      · have other := elsewhere entry isIn conn (still conn earlier)
        exact (if_neg other).trans (owned.filed entry isIn conn (still conn earlier))
      · rw [mem_singleton.mp last]
        exact if_pos rfl
    · intro other among conn inside
      have old : other ∈ s.entries := by
        rw [split, mem_append, mem_cons]
        rw [mem_append] at among
        tauto
      exact if_neg (elsewhere other old conn inside)

theorem Owned.release (held : x ∈ s.held) (key : κ) (now : UInt64) (creates grows : Bool) :
    (s.release key x now creates grows).Owned := by
  unfold HttpPool.release
  split
  · exact owned.closeTransport held
  have created : ({ s with mutex := true } : HttpPool κ).Owned := owned.congr rfl rfl rfl rfl rfl
  dsimp only
  split
  · rename_i entry found
    exact created.store held found now grows
  rename_i none
  split
  · exact created.closeTransport held
  · rename_i few
    have inserted := created.insert (httpPoolFindEntry_none none) (Nat.lt_of_not_le few)
    have found : httpPoolFindEntry (s.entries ++ [fresh key]) key = some (fresh key) := by
      rw [httpPoolFindEntry] at none
      rw [httpPoolFindEntry, List.find?_append, none]
      simp [fresh]
    exact inserted.store held found now grows

theorem Owned.step (moves : s.step act = some t) : t.Owned := by
  cases act with
  | dial =>
    cases moves
    exact owned.dial
  | acquire key now creates =>
    cases moves
    exact owned.acquire key now creates
  | release key transport now creates grows =>
    obtain ⟨held, same⟩ := ite_none_right_eq_some.mp moves
    cases same
    exact owned.release held key now creates grows
  | close transport =>
    obtain ⟨held, same⟩ := ite_none_right_eq_some.mp moves
    cases same
    exact owned.closeTransport held
  | clear =>
    cases moves
    exact owned.clear

/-- What `_http_pool_acquire` hands out was in the pool, under its key and for no longer than allowed. -/
theorem Owned.acquired {now : UInt64} {creates : Bool} (hands : (s.acquire key now creates).1 = some x) :
    (∃ since, s.released x = some (key, since) ∧ now - since ≤ poolIdleTimeoutMs) ∧ x ∈ s.stored ∧
      x ∈ (s.acquire key now creates).2.held := by
  unfold HttpPool.acquire at hands ⊢
  split at hands
  · cases hands
  rename_i created
  rw [if_neg created]
  dsimp only at hands ⊢
  split at hands
  · cases hands
  · rename_i entry found
    obtain ⟨conn, inside, is, fresh⟩ := (httpPoolScan_spec now entry.conns.reverse).2.2 x hands
    have isIn : entry ∈ s.entries := List.mem_of_find?_eq_some found
    have key_eq : entry.key = key := by simpa using List.find?_some found
    have inside := mem_reverse.mp inside
    refine ⟨⟨conn.idleSince, ?_, fresh⟩, is ▸ mem_stored isIn inside, ?_⟩
    · rw [← is, ← key_eq]
      exact owned.filed entry isIn conn inside
    · rw [hands]
      exact mem_append_left _ (mem_singleton_self x)

end

theorem Owned.of_reach (reach : Reach HttpPool.step (fun _ _ => True) HttpPool.init s) : s.Owned := by
  induction reach with
  | start => exact ⟨fun _ => rfl, .nil, Nat.zero_le _, nofun, nofun⟩
  | next _ _ moves ih => exact ih.step moves

theorem step_closed (moves : s.step act = some t) : s.closed <:+ t.closed := by
  have close : ∀ (s : HttpPool κ) (x : Nat), s.closed <:+ (s.closeTransport x).closed := fun _ _ => suffix_cons ..
  have store : ∀ (s : HttpPool κ) (entry : HttpPoolEntry κ) (x : Nat) (now : UInt64) (grows : Bool),
      s.closed <:+ (s.store entry x now grows).closed := by
    intro s entry x now grows
    unfold HttpPool.store
    generalize (if poolMaxIdlePerHost ≤ entry.conns.length then entry.conns.take 1 else []) = evicted
    dsimp only
    split
    · exact (suffix_append ..).trans (suffix_cons ..)
    · exact suffix_append ..
  cases act with
  | dial =>
    cases moves
    exact suffix_refl _
  | acquire key now creates =>
    cases moves
    unfold HttpPool.acquire
    split
    · exact suffix_refl _
    dsimp only
    split
    · exact suffix_refl _
    · exact suffix_append ..
  | release key transport now creates grows =>
    obtain ⟨-, same⟩ := ite_none_right_eq_some.mp moves
    cases same
    unfold HttpPool.release
    split
    · exact close s transport
    dsimp only
    split
    · exact store { s with mutex := true } _ transport now grows
    split
    · exact close s transport
    · exact store { s with mutex := true, entries := s.entries ++ [.fresh key] } _ transport now grows
  | close transport =>
    obtain ⟨-, same⟩ := ite_none_right_eq_some.mp moves
    cases same
    exact close s transport
  | clear =>
    cases moves
    exact suffix_append ..

end HttpPool

/-- Every transport that was dialled has one owner, a request, the pool or none once it is closed; a closed one stays
so; a request gets from the pool only what was given back under its key and has not expired; and the pool keeps its
bounds. -/
theorem http_pool_ownership (reach : Reach HttpPool.step (fun _ _ => True) HttpPool.init s) :
    (∀ x, s.held.count x + s.stored.count x + s.closed.count x = if x < s.dialled then 1 else 0) ∧
    (∀ act t, s.step act = some t → s.closed <:+ t.closed) ∧
    (∀ key now creates x, (s.acquire key now creates).1 = some x →
      (∃ since, s.released x = some (key, since) ∧ now - since ≤ poolIdleTimeoutMs) ∧
      s.stored.count x = 1 ∧ s.held.count x = 0 ∧
      (s.acquire key now creates).2.stored.count x = 0 ∧ (s.acquire key now creates).2.held.count x = 1) ∧
    s.entries.length ≤ poolMaxHosts ∧ (s.entries.map HttpPoolEntry.key).Nodup ∧
    ∀ entry ∈ s.entries, entry.conns.length ≤ poolMaxIdlePerHost := by
  have owned := HttpPool.Owned.of_reach reach
  refine ⟨owned.once, fun act t => HttpPool.step_closed, fun key now creates x hands => ?_, owned.hosts, owned.keys,
    owned.idle⟩
  obtain ⟨released, stored, held⟩ := owned.acquired hands
  have after := (owned.acquire key now creates).held_only held
  have once := owned.once x
  have positive := count_pos_iff.mpr stored
  refine ⟨released, ?_, ?_, after.2.1, after.1⟩ <;> split at once <;> omega

/-- A connection that was given back and taken out again. -/
theorem http_pool_ownership_reuse : ∃ s : HttpPool Nat, s.dialled = 1 ∧ (s.acquire 7 90000 true).1 = some 0 ∧
      s.stored.count 0 = 1 ∧ (s.acquire 7 90000 true).2.held.count 0 = 1 := by
  obtain ⟨s, reach, dialled, hands⟩ : ∃ s : HttpPool Nat, Reach HttpPool.step (fun _ _ => True) HttpPool.init s ∧
      s.dialled = 1 ∧ (s.acquire 7 90000 true).1 = some 0 :=
    exists_reach [.dial, .release 7 0 0 true true] (by decide)
  obtain ⟨-, -, acquired, -⟩ := http_pool_ownership reach
  obtain ⟨-, stored, -, -, held⟩ := acquired 7 90000 true 0 hands
  exact ⟨s, dialled, hands, stored, held⟩

end Xylem.Http
