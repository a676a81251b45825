import Kryptan.Machinery.LastWriter
import Kryptan.Sync.DefaultMerge
import Kryptan.Sync.History
import Mathlib

/-!
# Sync/Convergence — default syncs bring all lists to the same

    phone, desktops ──any history──▸ ‥ ──sweep──▸ behind ──sweep──▸ within ──sweep──▸ the same

A password is known by its creation time and its version is its modification time, so a list is a
replica (`stamps`) and **a default merge is the merge of replicas** (`stamps_default`): the later
version wins, and an old password of one list alone is dropped.

A sweep is a run of default syncs in which every desktop has its turn.  **After three sweeps, in
whatever order, the desktops have the phone's list, and no further sync changes a list**
(`syncs_converge`).  Three, because a sweep may drop from the phone what a desktop had its turn with
before.
-/

namespace Kryptan

open ConflictChoice Matching SyncAdapter SyncronizeDesktopActivity Runs LastWriter HistoryEvent

variable {L ι : Type*}

/-! ## A list as a replica -/

/-- The version of each creation time, `⊥` where no password has it. -/
def stamps (l : List PwdData) (t : ℤ) : WithBot ℤ :=
  match l.find? fun q => q.timeCreated = t with
  | some q => (q.timeModified : WithBot ℤ)
  | none => ⊥

/-- What was created before the last sync. -/
def oldTimes (mLastSync : ℤ) : Set ℤ := {t | mLastSync ≠ 0 ∧ t < mLastSync}

section Stamps

variable {l : List PwdData} {t : ℤ}

theorem stamps_of_mem (hl : (dataTimes l).Nodup) {q : PwdData} (hq : q ∈ l) :
    stamps l q.timeCreated = q.timeModified := by
  have hsome : (l.find? fun q' => decide (q'.timeCreated = q.timeCreated)).isSome := by
    rw [List.find?_isSome]
    exact ⟨q, hq, decide_eq_true rfl⟩
  obtain ⟨q', hq'⟩ := Option.isSome_iff_exists.mp hsome
  have hsame : q'.timeCreated = q.timeCreated := of_decide_eq_true (List.find?_some hq' :)
  obtain rfl := List.inj_on_of_nodup_map hl (List.mem_of_find?_eq_some hq') hq hsame
  rw [stamps, hq']

theorem stamps_eq_bot_iff : stamps l t = ⊥ ↔ t ∉ dataTimes l := by
  have hnone : t ∉ dataTimes l ↔ (l.find? fun q => decide (q.timeCreated = t)) = none := by
    rw [List.find?_eq_none, dataTimes, List.mem_map]
    simp
  rw [hnone, stamps]
  cases l.find? fun q => decide (q.timeCreated = t) with
  | none => exact iff_of_true rfl rfl
  | some q => exact iff_of_false (WithBot.coe_ne_bot) (Option.some_ne_none q)

/-- The creation times of a list of passwords are those of their data. -/
theorem dataTimes_map_data (l : List CorePwd) : dataTimes (l.map CorePwd.data) = times l :=
  List.map_map ..

theorem stamps_map_of_mem {l : List CorePwd} (hl : (times l).Nodup) {p : CorePwd} (hp : p ∈ l) :
    stamps (l.map CorePwd.data) p.getTimeCreated = p.getTimeModified :=
  stamps_of_mem (dataTimes_map_data l ▸ hl) (List.mem_map_of_mem hp)

theorem stamps_map_eq_bot_iff {l : List CorePwd} :
    stamps (l.map CorePwd.data) t = ⊥ ↔ t ∉ times l := by
  rw [stamps_eq_bot_iff, dataTimes_map_data]

/-- A bound on the passwords of a time bounds the version of that time. -/
theorem stamps_map_le {l : List CorePwd} (hl : (times l).Nodup) {v : WithBot ℤ}
    (h : ∀ p ∈ l, p.getTimeCreated = t → WithBot.some p.getTimeModified ≤ v) :
    stamps (l.map CorePwd.data) t ≤ v := by
  by_cases ht : t ∈ times l
  · obtain ⟨p, hp, rfl⟩ := mem_times.mp ht
    rw [stamps_map_of_mem hl hp]
    exact h p hp rfl
  · rw [stamps_map_eq_bot_iff.mpr ht]
    exact bot_le

end Stamps

/-- What a default merge leaves of a creation time is one of its two sides. -/
theorem le_sup_of_mem_default {C : CorePwdList L} (hC : C.LawfulMerge) {mLastSync : ℤ} {list : L}
    {remotes : List CorePwd} {items : List ConflictChoice}
    (hlocals : (times (C.all list)).Nodup) (hremotes : (times remotes).Nodup)
    (hitems : createSyncItemList mLastSync (C.all list) remotes = .ok items) {p : CorePwd}
    (hp : p ∈ C.all (applyChoices C list items).list) :
    WithBot.some p.getTimeModified ≤ stamps ((C.all list).map CorePwd.data) p.getTimeCreated ⊔
      stamps (remotes.map CorePwd.data) p.getTimeCreated := by
  obtain ⟨c, hc, r, hres, hdata⟩ := exists_result_of_mem hC hitems hp
  have hclicked : c ∈ clickItems items [] := hc
  have hpair := sides_mem_pairs hitems hclicked
  have hcreated : r.getTimeCreated = p.getTimeCreated := congrArg PwdData.timeCreated hdata
  have hmodified : r.getTimeModified = p.getTimeModified := congrArg PwdData.timeModified hdata
  rw [← hcreated, ← hmodified]
  rcases result_eq_some.mp hres with hk | hi
  · rw [sides, mLocal_of_kept hk] at hpair
    exact le_sup_of_le_left (stamps_map_of_mem hlocals (left_mem hpair)).ge
  · rw [sides, mRemote_of_imported hi] at hpair
    exact le_sup_of_le_right (stamps_map_of_mem hremotes (right_mem hpair)).ge

/-- **The default merge is the merge of replicas**: the later version of a password wins, and what
one list alone has from before the last sync is dropped. -/
theorem stamps_default {C : CorePwdList L} (hC : C.LawfulMerge) {mLastSync : ℤ} {list : L}
    {remotes : List CorePwd} {items : List ConflictChoice}
    (hlocals : (times (C.all list)).Nodup) (hremotes : (times remotes).Nodup)
    (hitems : createSyncItemList mLastSync (C.all list) remotes = .ok items) :
    stamps (C.contents (applyChoices C list items).list)
      = merge (oldTimes mLastSync) (stamps (C.contents list))
          (stamps (remotes.map CorePwd.data)) := by
  have hmerged : (times (C.all (applyChoices C list items).list)).Nodup :=
    nodup_applyChoices hC hlocals hremotes hitems []
  funext t
  have hiff := mem_times_default_iff hC hlocals hremotes hitems (t := t)
  by_cases ht : t ∈ times (C.all (applyChoices C list items).list)
  · obtain ⟨hside, hkept⟩ := hiff.mp ht
    obtain ⟨p, hp, rfl⟩ := mem_times.mp ht
    rw [merge_of_not, CorePwdList.contents, CorePwdList.contents, stamps_map_of_mem hmerged hp]
    · refine le_antisymm ?_ (sup_le (stamps_map_le hlocals fun x hx htime => ?_)
        (stamps_map_le hremotes fun x hx htime => ?_))
      · exact le_sup_of_mem_default hC hlocals hremotes hitems hp
      · exact WithBot.coe_le_coe.mpr
          (le_of_mem_default hC hlocals hremotes hitems hp (.inl hx) htime)
      · exact WithBot.coe_le_coe.mpr
          (le_of_mem_default hC hlocals hremotes hitems hp (.inr hx) htime)
    · rintro ⟨hold, hbot⟩
      rw [CorePwdList.contents, stamps_map_eq_bot_iff, stamps_map_eq_bot_iff] at hbot
      refine hkept ⟨?_, hold⟩
      rcases hbot with hlocal | hremote
      · exact .inr ⟨hlocal, hside.resolve_left hlocal⟩
      · exact .inl ⟨hside.resolve_right hremote, hremote⟩
  · rw [CorePwdList.contents, stamps_map_eq_bot_iff.mpr ht, eq_comm, merge_eq_bot_iff,
      CorePwdList.contents, stamps_map_eq_bot_iff, stamps_map_eq_bot_iff]
    rw [hiff, not_and, not_not] at ht
    by_cases hside : t ∈ times (C.all list) ∨ t ∈ times remotes
    · obtain ⟨halone, hold⟩ := ht hside
      exact .inr ⟨hold, halone.symm.imp And.left And.right⟩
    · exact .inl (not_or.mp hside)

/-- **Where the remote list has nothing to teach, no default choice touches the local one.** -/
theorem shouldLocalPropagate_of_behind_within {mLastSync : ℤ} {locals remotes : List CorePwd}
    {items : List ConflictChoice} (hlocals : (times locals).Nodup)
    (hremotes : (times remotes).Nodup)
    (hitems : createSyncItemList mLastSync locals remotes = .ok items)
    (hbehind : ∀ t, stamps (remotes.map CorePwd.data) t ≤ stamps (locals.map CorePwd.data) t ∨
      (stamps (locals.map CorePwd.data) t = ⊥ ∧ t ∈ oldTimes mLastSync))
    (hwithin : ∀ t, stamps (remotes.map CorePwd.data) t = ⊥ →
      stamps (locals.map CorePwd.data) t = ⊥) : ∀ c ∈ items, c.shouldLocalPropagate = true := by
  intro c hc
  obtain ⟨-, hdefault, -⟩ := createSyncItemList_eq_ok hitems
  have hclicked : c ∈ clickItems items [] := hc
  have hpair := sides_mem_pairs hitems hclicked
  rcases hsingle : c.single with _ | x
  · -- both sides: the local one is at least as late
    obtain ⟨p, q, hs⟩ := exists_sides_of_single (pairable_of_mem_pairs hpair).1 hsingle
    rw [hs] at hpair
    have hp := stamps_map_of_mem hlocals (left_mem hpair)
    have hq := stamps_map_of_mem hremotes (right_mem hpair)
    rw [← pairUp_key hpair] at hq
    rcases hbehind p.getTimeCreated with hle | ⟨hbot, -⟩
    · rw [hp, hq, WithBot.coe_le_coe] at hle
      rw [((hdefault c hc).both hs).1, decide_eq_true hle]
    · exact absurd (hp.symm.trans hbot) WithBot.coe_ne_bot
  · rw [(hdefault c hc).shouldLocalPropagate_single hsingle]
    rcases single_eq_some.mp hsingle with hs | hs <;> rw [hs] at hpair
    · -- the local list alone has it: it has no such password
      obtain ⟨hx, hnot⟩ := (left_mem_pairs hlocals hremotes).mp hpair
      have hbot := hwithin _ (stamps_map_eq_bot_iff.mpr hnot)
      exact absurd (mem_times.mpr ⟨x, hx, rfl⟩) (stamps_map_eq_bot_iff.mp hbot)
    · -- the remote list alone has it: then it is old
      obtain ⟨hx, hnot⟩ := (right_mem_pairs hlocals hremotes).mp hpair
      have hbot := stamps_map_eq_bot_iff.mpr hnot
      refine iff_of_true (Prod.mk.inj hs).1 ?_
      rcases hbehind x.getTimeCreated with hle | ⟨-, hold⟩
      · rw [stamps_map_of_mem hremotes hx, hbot, le_bot_iff] at hle
        exact absurd hle WithBot.coe_ne_bot
      · exact hold

/-! ## A phone and its desktops as a star of replicas -/

namespace HistoryEvent

/-- The desktop that an event is a sync with. -/
def synced : HistoryEvent ι → Option ι
  | .sync d _ _ => some d
  | _ => none

/-- Nothing but time, success dialogs, and syncs with desktops of `D` in which every default choice
is left as it is. -/
def OnlySyncs (D : Set ι) : HistoryEvent ι → Prop
  | .tick _ | .finishClicked => True
  | .sync d _ clicks => d ∈ D ∧ clicks = []
  | _ => False

/-- Default syncs in which every desktop of `D` has its turn. -/
structure Sweep (D : Set ι) (es : List (HistoryEvent ι)) : Prop where
  onlySyncs : ∀ e ∈ es, e.OnlySyncs D
  turn : ∀ d ∈ D, ∃ e ∈ es, e.synced = some d

theorem OnlySyncs.eq_sync {D : Set ι} {e : HistoryEvent ι} (he : e.OnlySyncs D) {d : ι}
    (hd : e.synced = some d) : ∃ remoteArray, e = .sync d remoteArray [] := by
  cases e with
  | sync d' remoteArray clicks =>
    obtain rfl := he.2
    exact ⟨remoteArray, congrArg (HistoryEvent.sync · remoteArray []) (Option.some.inj hd)⟩
  | _ => exact nomatch hd

theorem OnlySyncs.mem_of_synced {D : Set ι} {e : HistoryEvent ι} (he : e.OnlySyncs D) {d : ι}
    (hd : e.synced = some d) : d ∈ D := by
  obtain ⟨remoteArray, rfl⟩ := he.eq_sync hd
  exact he.1

end HistoryEvent

namespace History

/-- The replicas of a history. -/
def star (C : CorePwdList L) (s : History L ι) : Star ι ℤ ℤ where
  hub := stamps (C.contents s.phone)
  leaf := stamps ∘ s.desktops
  old := oldTimes s.lastSyncTime

variable [DecidableEq ι] {C : CorePwdList L} {s t : History L ι} {D : Set ι} {e : HistoryEvent ι}

/-- A sync that nobody clicks in. -/
theorem exists_items_of_sync {d : ι} {remoteArray : List CorePwd}
    (h : s.step C (.sync d remoteArray []) = some t) :
    ∃ items, remoteArray.map CorePwd.data = s.desktops d ∧
      createSyncItemList s.lastSyncTime (C.all s.phone) remoteArray = .ok items ∧
      t.phone = (applyChoices C s.phone items).list ∧
      t.desktops = Function.update s.desktops d (C.contents t.phone) ∧
      t.lastSyncTime = s.lastSyncTime := by
  obtain ⟨hguard, h⟩ := Option.ite_none_right_eq_some.mp h
  rw [syncWith] at h
  cases hitems : createSyncItemList s.lastSyncTime (C.all s.phone) remoteArray with
  | error e =>
    rw [hitems] at h
    cases h
  | ok items =>
    rw [hitems] at h
    obtain rfl := Option.some.inj h
    exact ⟨items, hguard.2, rfl, rfl, rfl, rfl⟩

/-- Time that passes and a dialog that is closed leave the lists alone. -/
theorem lists_of_not_synced (he : e.OnlySyncs D) (hnone : e.synced = none)
    (h : s.step C e = some t) : t.phone = s.phone ∧ t.desktops = s.desktops := by
  cases e with
  | tick seconds =>
    obtain rfl := Option.some.inj h
    exact ⟨rfl, rfl⟩
  | finishClicked =>
    obtain ⟨-, heq⟩ := Option.ite_none_left_eq_some.mp h
    obtain rfl := Option.some.inj heq
    exact ⟨rfl, rfl⟩
  | sync d remoteArray clicks => exact nomatch hnone
  | _ => exact he.elim

/-- **Default syncs are steps of the star.** -/
theorem star_step (hC : C.LawfulMerge) (hs : s.Wellformed C) (he : e.OnlySyncs D)
    (h : s.step C e = some t) : (s.star C).Step e.synced (t.star C) := by
  cases e with
  | tick seconds =>
    obtain rfl := Option.some.inj h
    exact .grow (s.star C) _ Set.Subset.rfl
  | finishClicked =>
    obtain ⟨-, heq⟩ := Option.ite_none_left_eq_some.mp h
    obtain rfl := Option.some.inj heq
    refine .grow (s.star C) (oldTimes s.clock) fun u hu => ⟨hs.ordered.clock_pos.ne', ?_⟩
    exact hu.2.trans_le hs.ordered.lastSync_le
  | sync d remoteArray clicks =>
    obtain rfl := he.2
    obtain ⟨items, hdata, hitems, hphone, hdesktops, hlast⟩ := exists_items_of_sync h
    have hremotes : (times remoteArray).Nodup := times_remoteArray hdata ▸ hs.desktop d
    have hhub := stamps_default hC hs.phone hremotes hitems
    rw [hdata, ← hphone] at hhub
    have hstar : t.star C = { s.star C with
        hub := merge (s.star C).old (s.star C).hub ((s.star C).leaf d)
        leaf := Function.update (s.star C).leaf d
          (merge (s.star C).old (s.star C).hub ((s.star C).leaf d)) } := by
      simp only [star, hdesktops, hlast, Function.comp_update, hhub, Function.comp_apply]
    rw [hstar]
    exact .merge (s.star C) d
  | _ => exact he.elim

/-! ## The three sweeps -/

/-- A sync with a desktop that is behind the phone and within it leaves the phone's list alone. -/
theorem phone_of_behind_within (hs : s.Wellformed C) {d : ι} (hbehind : (s.star C).Behind d)
    (hwithin : (s.star C).Within d) {remoteArray : List CorePwd}
    (h : s.step C (.sync d remoteArray []) = some t) : t.phone = s.phone := by
  obtain ⟨items, hdata, hitems, hphone, -⟩ := exists_items_of_sync h
  have hremotes : (times remoteArray).Nodup := times_remoteArray hdata ▸ hs.desktop d
  have hlocal := shouldLocalPropagate_of_behind_within hs.phone hremotes hitems
    (by rw [hdata]; exact hbehind) (by rw [hdata]; exact hwithin)
  rw [hphone, applyChoices_of_shouldLocalPropagate C _ hlocal]

/-- All of `D` is behind the phone. -/
structure Behind (C : CorePwdList L) (D : Set ι) (s : History L ι) : Prop where
  wellformed : s.Wellformed C
  behind : ∀ d ∈ D, (s.star C).Behind d

/-- …and within it. -/
structure Within (C : CorePwdList L) (D : Set ι) (s : History L ι) : Prop
    extends s.Behind C D where
  within : ∀ d ∈ D, (s.star C).Within d

/-- …and has its list. -/
structure Alike (C : CorePwdList L) (D : Set ι) (s : History L ι) : Prop
    extends s.Within C D where
  desktops : ∀ d ∈ D, s.desktops d = C.contents s.phone

/-- **Once all of `D` is within the phone's list, that list stays**, and a desktop has what it had
or, in its turn, the phone's list. -/
theorem Within.lists (hs : s.Within C D) (he : e.OnlySyncs D) (h : s.step C e = some t) :
    t.phone = s.phone ∧ ∀ d, (e.synced = some d ∧ t.desktops d = C.contents t.phone) ∨
      (e.synced ≠ some d ∧ t.desktops d = s.desktops d) := by
  cases hsynced : e.synced with
  | none =>
    obtain ⟨hphone, hdesktops⟩ := lists_of_not_synced he hsynced h
    exact ⟨hphone, fun d => .inr ⟨(Option.some_ne_none d).symm, congrFun hdesktops d⟩⟩
  | some d =>
    obtain ⟨remoteArray, rfl⟩ := he.eq_sync hsynced
    have hd : d ∈ D := he.1
    refine ⟨phone_of_behind_within hs.wellformed (hs.behind d hd) (hs.within d hd) h,
      fun d' => ?_⟩
    obtain ⟨-, -, -, -, hdesktops, -⟩ := exists_items_of_sync h
    rcases eq_or_ne d d' with rfl | hne
    · exact .inl ⟨rfl, by rw [hdesktops, Function.update_self]⟩
    · exact .inr ⟨fun heq => hne (Option.some.inj heq),
        by rw [hdesktops, Function.update_of_ne hne.symm]⟩

section Sweeps

variable (hC : C.LawfulMerge) (hE : C.LawfulEdit)

include hC hE

theorem Behind.step (hs : s.Behind C D) (he : e.OnlySyncs D) (h : s.step C e = some t) :
    t.Behind C D where
  wellformed := (step_refines hC hE hs.wellformed h).2
  behind d hd := (hs.behind d hd).step (star_step hC hs.wellformed he h)

theorem Within.step (hs : s.Within C D) (he : e.OnlySyncs D) (h : s.step C e = some t) :
    t.Within C D where
  toBehind := hs.toBehind.step hC hE he h
  within d hd := (hs.within d hd).step (fun j hj => hs.behind j (he.mem_of_synced hj))
    (star_step hC hs.wellformed he h)

/-- **Lists that are alike stay as they are.** -/
theorem Alike.step (hs : s.Alike C D) (he : e.OnlySyncs D) (h : s.step C e = some t) :
    t.Alike C D ∧ t.phone = s.phone ∧ t.desktops = s.desktops := by
  obtain ⟨hphone, hlists⟩ := hs.toWithin.lists he h
  have hdesktops : t.desktops = s.desktops := by
    funext d
    rcases hlists d with ⟨hsynced, hd⟩ | ⟨-, hd⟩
    · rw [hd, hphone, hs.desktops d (he.mem_of_synced hsynced)]
    · exact hd
  refine ⟨⟨hs.toWithin.step hC hE he h, fun d hd => ?_⟩, hphone, hdesktops⟩
  rw [hdesktops, hphone, hs.desktops d hd]

/-- After a sweep the desktops are behind the phone. -/
theorem behind_of_sweep (hs : s.Wellformed C) {es : List (HistoryEvent ι)} (hes : Sweep D es)
    (h : run (step C) s es = some t) : t.Behind C D := by
  have hstep : ∀ (u : History L ι) e v, u.Wellformed C → e.OnlySyncs D → u.step C e = some v →
      v.Wellformed C ∧ ∀ d, d ∈ D → (e.synced = some d → (v.star C).Behind d) ∧
        ((u.star C).Behind d → (v.star C).Behind d) := by
    intro u e v hu he hv
    have hstar := star_step hC hu he hv
    refine ⟨(step_refines hC hE hu hv).2, fun d _ => ⟨fun hd => ?_, fun hb => hb.step hstar⟩⟩
    rw [hd] at hstar
    exact hstar.behind_self
  obtain ⟨hwell, hbehind⟩ := run_establishes_all hstep hs hes.onlySyncs hes.turn h
  exact ⟨hwell, hbehind⟩

/-- After another one they are within it. -/
theorem Behind.within_of_sweep (hs : s.Behind C D) {es : List (HistoryEvent ι)} (hes : Sweep D es)
    (h : run (History.step C) s es = some t) : t.Within C D := by
  have hstep : ∀ (u : History L ι) e v, u.Behind C D → e.OnlySyncs D → u.step C e = some v →
      v.Behind C D ∧ ∀ d, d ∈ D → (e.synced = some d → (v.star C).Within d) ∧
        ((u.star C).Within d → (v.star C).Within d) := by
    intro u e v hu he hv
    have hstar := star_step hC hu.wellformed he hv
    have hturn : ∀ j ∈ e.synced, (u.star C).Behind j := fun j hj =>
      hu.behind j (he.mem_of_synced hj)
    refine ⟨hu.step hC hE he hv, fun d _ => ⟨fun hd => ?_, fun hw => hw.step hturn hstar⟩⟩
    rw [hd] at hstar
    exact hstar.within_self
  obtain ⟨hbehind, hwithin⟩ := run_establishes_all hstep hs hes.onlySyncs hes.turn h
  exact ⟨hbehind, hwithin⟩

/-- After a third one they have the phone's list. -/
theorem Within.alike_of_sweep (hs : s.Within C D) {es : List (HistoryEvent ι)} (hes : Sweep D es)
    (h : run (History.step C) s es = some t) : t.Alike C D := by
  have hstep : ∀ (u : History L ι) e v, u.Within C D → e.OnlySyncs D → u.step C e = some v →
      v.Within C D ∧ ∀ d, d ∈ D → (e.synced = some d → v.desktops d = C.contents v.phone) ∧
        (u.desktops d = C.contents u.phone → v.desktops d = C.contents v.phone) := by
    intro u e v hu he hv
    obtain ⟨hphone, hlists⟩ := hu.lists he hv
    refine ⟨hu.step hC hE he hv, fun d _ => ⟨fun hd => ?_, fun heq => ?_⟩⟩
    · exact ((hlists d).resolve_right fun hnot => hnot.1 hd).2
    · rcases hlists d with ⟨-, hd⟩ | ⟨-, hd⟩
      · exact hd
      · rw [hd, hphone, heq]
  obtain ⟨hwithin, hdesktops⟩ := run_establishes_all hstep hs hes.onlySyncs hes.turn h
  exact ⟨hwithin, hdesktops⟩

/-- No further sync changes a list. -/
theorem Alike.lists_of_run (hs : s.Alike C D) {es : List (HistoryEvent ι)}
    (hes : ∀ e ∈ es, e.OnlySyncs D) (h : run (History.step C) s es = some t) :
    t.phone = s.phone ∧ t.desktops = s.desktops := by
  have hstep : ∀ (u : History L ι) e v,
      (u.Alike C D ∧ u.phone = s.phone ∧ u.desktops = s.desktops) → e.OnlySyncs D →
        u.step C e = some v → v.Alike C D ∧ v.phone = s.phone ∧ v.desktops = s.desktops := by
    rintro u e v ⟨hu, hphone, hdesktops⟩ he hv
    obtain ⟨halike, hphone', hdesktops'⟩ := hu.step hC hE he hv
    exact ⟨halike, hphone'.trans hphone, hdesktops'.trans hdesktops⟩
  exact (((allSteps_of_forall_mem s hes).allStates hstep ⟨hs, rfl, rfl⟩).of_run h).2

/-- **Default syncs bring all lists to the same.**  Whatever the phone and its desktops went
through, after three sweeps over some desktops these have the phone's list, passwords, versions and
order, and no further sync with them changes any list. -/
theorem syncs_converge {phone : L} {clock : ℤ} (hphone : C.all phone = []) (hclock : 0 < clock)
    {before first second third after : List (HistoryEvent ι)} (hfirst : Sweep D first)
    (hsecond : Sweep D second) (hthird : Sweep D third) (hafter : ∀ e ∈ after, e.OnlySyncs D)
    (hs : run (step C) (start phone clock) (before ++ (first ++ (second ++ third))) = some s)
    (ht : run (step C) s after = some t) :
    (∀ d ∈ D, s.desktops d = C.contents s.phone) ∧ t.phone = s.phone ∧ t.desktops = s.desktops := by
  obtain ⟨u₀, hbefore, hs⟩ := run_append_eq_some.mp hs
  obtain ⟨u₁, hone, hs⟩ := run_append_eq_some.mp hs
  obtain ⟨u₂, htwo, hthree⟩ := run_append_eq_some.mp hs
  have hwell : u₀.Wellformed C :=
    run_induction (fun s e t hs h => (step_refines hC hE hs h).2) (wellformed_start hphone hclock)
      hbefore
  have halike := ((behind_of_sweep hC hE hwell hfirst hone).within_of_sweep hC hE hsecond
    htwo).alike_of_sweep hC hE hthird hthree
  exact ⟨halike.desktops, halike.lists_of_run hC hE hafter ht⟩

end Sweeps

/-- Two desktops, one of them with a new password.  After two sweeps the phone has lost it and that
desktop has not, after the third all lists are empty. -/
theorem syncs_converge_two_desktops :
    let p : PwdData := ⟨[1], [], [2], [], 5, 5⟩
    let before : List (HistoryEvent Bool) := [.desktopCreates true p]
    let first : List (HistoryEvent Bool) :=
      [.sync false [] [], .finishClicked, .sync true [⟨0, p⟩] [], .tick 1, .finishClicked]
    let second : List (HistoryEvent Bool) :=
      [.sync true [⟨0, p⟩] [], .finishClicked, .sync false [] [], .finishClicked]
    let third : List (HistoryEvent Bool) :=
      [.sync true [⟨0, p⟩] [], .finishClicked, .sync false [] []]
    ∃ s t,
      run (step PwdTable.core) (start PwdTable.empty 5) (before ++ (first ++ second)) = some s ∧
      s.desktops true ≠ PwdTable.core.contents s.phone ∧
      run (step PwdTable.core) (start PwdTable.empty 5) (before ++ (first ++ (second ++ third)))
        = some t ∧ ∀ d, t.desktops d = PwdTable.core.contents t.phone := by
  intro p before first second third
  have hfirst : Sweep Set.univ first :=
    ⟨by simp [first, OnlySyncs], fun d _ => by cases d <;> simp [first, synced]⟩
  have hsecond : Sweep Set.univ second :=
    ⟨by simp [second, OnlySyncs], fun d _ => by cases d <;> simp [second, synced]⟩
  have hthird : Sweep Set.univ third :=
    ⟨by simp [third, OnlySyncs], fun d _ => by cases d <;> simp [third, synced]⟩
  have hafter : ∀ e ∈ ([] : List (HistoryEvent Bool)), e.OnlySyncs Set.univ := fun e he =>
    absurd he List.not_mem_nil
  have halike : ∀ t, run (step PwdTable.core) (start PwdTable.empty 5)
      (before ++ (first ++ (second ++ third))) = some t →
        ∀ d, t.desktops d = PwdTable.core.contents t.phone := fun t ht d =>
    (syncs_converge PwdTable.core_lawfulMerge PwdTable.core_lawfulEdit rfl (by decide) hfirst
      hsecond hthird hafter ht rfl).1 d trivial
  exact ⟨_, _, rfl, by decide, rfl, halike _ rfl⟩

end History

end Kryptan
