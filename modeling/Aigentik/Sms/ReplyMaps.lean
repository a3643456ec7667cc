import Aigentik.Effects.Sequential
import Aigentik.Sms.NotificationReplyRouter
import Mathlib.Data.List.Perm.Subperm

namespace Aigentik.ReplyMaps

open Strings Effects NotificationReplyRouter

structure Maps where
  ids : SharedMap Str Str
  entries : SharedMap Str ReplyEntry

def Maps.init : Maps := ⟨.empty, .empty⟩

/-- Which key comes first where the first one is asked for. -/
def Picks (first : Str → Prop) : (op : MapOp Str ReplyEntry) → (mapSig Str ReplyEntry).Resp op → Prop
  | .firstKey, some k => first k
  | _, _ => True

/-- The two maps answer for themselves, and everything else may answer anything. -/
def reacts (first : Maps → Str → Prop) : Reacts sig Maps
  | .ids op, s, r, s' => s' = { s with ids := s.ids.after op } ∧ s.ids.Answers op r
  | .entries op, s, r, s' =>
    s' = { s with entries := s.entries.after op } ∧ s.entries.Answers op r ∧ Picks (first s) op r
  | _, s, _, s' => s' = s

inductive Operation
  | register (messageId : Str) (entry : ReplyEntry)
  | onNotificationRemoved (sbnKey : Str)
  | sendReply (messageId replyText : Str)
  deriving DecidableEq

/-- The operation; `true` for those that answer nothing. -/
def Operation.run : Operation → Prog sig Throwable Bool
  | .register messageId entry => do
    NotificationReplyRouter.register messageId entry
    return true
  | .onNotificationRemoved sbnKey => do
    NotificationReplyRouter.onNotificationRemoved sbnKey
    return true
  | .sendReply messageId replyText => NotificationReplyRouter.sendReply messageId replyText

abbrev History := List (Done Operation Throwable Bool)

/-- There is no entry to reply with. -/
def Missing (s : Maps) (messageId : Str) : Prop := (s.ids.get messageId).bind s.entries.get = none

/-- The notification has been registered, or registered again. -/
def Registered (sbnKey : Str) (h : History) : Prop :=
  ∃ messageId entry o, (.register messageId entry, o) ∈ h ∧ entry.sbnKey = sbnKey

/-- What happened since a message was registered accounts for its entry's absence: its
notification was removed, it was replied to, or a hundred other notifications came. -/
def Lost (messageId sbnKey : Str) (h : History) : Prop :=
  (∃ o, (.onNotificationRemoved sbnKey, o) ∈ h) ∨ (∃ text, (.sendReply messageId text, .ok true) ∈ h) ∨
    ∃ others : List Str, others.Nodup ∧ 100 ≤ others.length ∧ ∀ k ∈ others, k ≠ sbnKey ∧ Registered k h

/-- The history, split where the message was registered last. -/
structure RegisteredLast (messageId : Str) (entry : ReplyEntry) (since h : History) : Prop where
  split : ∃ before o, h = before ++ (.register messageId entry, o) :: since
  last : ∀ entry' o, (.register messageId entry', o) ∉ since

structure Coherent (h : History) (s : Maps) : Prop where
  present : ∀ messageId sbnKey, s.ids.get messageId = some sbnKey → ∃ entry, s.entries.get sbnKey = some entry
  lost : ∀ messageId entry since, RegisteredLast messageId entry since h → Missing s messageId →
    Lost messageId entry.sbnKey since
  kept : ∀ before messageId entry o, h = before ++ [(.register messageId entry, o)] →
    s.ids.get messageId = some entry.sbnKey ∧ s.entries.get entry.sbnKey = some entry

/-! The order of registration -/

def touch (ks : List Str) : Operation → List Str
  | .register _ entry => ks.filter (· ≠ entry.sbnKey) ++ [entry.sbnKey]
  | _ => ks

/-- The notifications in the order in which they were registered last. -/
def order (h : History) : List Str := (h.map Prod.fst).foldl touch []

@[simp] theorem order_append (h : History) (d : Done Operation Throwable Bool) :
    order (h ++ [d]) = touch (order h) d.1 := by
  simp [order]

/-- The key that comes first is the one that was registered longest ago. -/
def Oldest (ks : List Str) (s : Maps) (k : Str) : Prop := ks.find? (· ∈ s.entries.keys) = some k

/-- The part of the list from a key on. -/
def since (k : Str) (ks : List Str) : List Str := ks.dropWhile (· ≠ k)

variable {k x : Str} {ks : List Str} {h : History} {s s' : Maps} {messageId : Str} {entry : ReplyEntry}

theorem mem_since_append (hx : x ∈ since k (ks ++ [messageId])) : x ∈ since k ks ∨ x = messageId := by
  induction ks with
  | nil =>
    have hmem : x ∈ [messageId] := (List.dropWhile_sublist _).subset hx
    exact .inr (List.mem_singleton.mp hmem)
  | cons y ks ih =>
    simp only [since, List.cons_append, List.dropWhile_cons] at hx ih ⊢
    split at hx
    · rename_i hy
      rw [if_pos hy]
      exact ih hx
    · rename_i hy
      rw [if_neg hy]
      simpa [or_assoc] using hx

theorem mem_since_filter {p : Str → Bool} (hx : x ∈ since k (ks.filter p)) : x ∈ since k ks := by
  induction ks with
  | nil => exact hx
  | cons y ks ih =>
    simp only [since, List.dropWhile_cons] at ih ⊢
    split
    · rename_i hy
      refine ih ?_
      rw [List.filter_cons] at hx
      split at hx
      · rwa [since, List.dropWhile_cons, if_pos hy] at hx
      · exact hx
    · rename_i hy
      have hyk : y = k := by simpa using hy
      have hmem : x ∈ (y :: ks).filter p := (List.dropWhile_sublist _).subset hx
      exact (List.mem_filter.mp hmem).1

theorem since_touched (ks : List Str) : since k (ks.filter (· ≠ k) ++ [k]) = [k] := by
  have hall : ∀ y ∈ ks.filter (· ≠ k), decide (y ≠ k) = true := fun y hy ↦ (List.mem_filter.mp hy).2
  rw [since, List.dropWhile_append_of_pos hall]
  simp

/-- A key of the map does not come before the one that is picked. -/
theorem mem_since_of_find {p : Str → Bool} (hfind : ks.find? p = some k) (hx : x ∈ ks) (hp : p x = true) :
    x ∈ since k ks := by
  induction ks with
  | nil => cases hx
  | cons y ks ih =>
    rw [List.find?_cons] at hfind
    split at hfind
    · obtain rfl := Option.some.inj hfind
      simpa [since] using hx
    · rename_i hy
      have hne : y ≠ k := by
        intro heq
        subst heq
        have hpk := List.find?_some hfind
        rw [hy] at hpk
        cases hpk
      rw [since, List.dropWhile_cons, if_pos (by simpa using hne)]
      refine ih hfind ((List.mem_cons.mp hx).resolve_left ?_)
      intro heq
      subst heq
      rw [hy] at hp
      cases hp

theorem Registered.append {h' : History} (hk : Registered k h) : Registered k (h ++ h') := by
  obtain ⟨id, entry, o, hmem, heq⟩ := hk
  exact ⟨id, entry, o, List.mem_append_left _ hmem, heq⟩

theorem Lost.append {h' : History} (hl : Lost messageId k h) : Lost messageId k (h ++ h') := by
  rcases hl with ⟨o, hmem⟩ | ⟨text, hmem⟩ | ⟨others, hnodup, hlength, hothers⟩
  · exact .inl ⟨o, List.mem_append_left _ hmem⟩
  · exact .inr (.inl ⟨text, List.mem_append_left _ hmem⟩)
  · exact .inr (.inr ⟨others, hnodup, hlength, fun k hk ↦ ⟨(hothers k hk).1, (hothers k hk).2.append⟩⟩)

/-- What comes after a key in the order was registered after it. -/
theorem registered_of_since {before since' : History} {o : Except Throwable Bool}
    (hx : x ∈ since entry.sbnKey (order (before ++ (.register messageId entry, o) :: since'))) :
    x = entry.sbnKey ∨ Registered x since' := by
  induction since' using List.reverseRecOn generalizing x with
  | nil =>
    rw [order_append, touch, since_touched] at hx
    exact .inl (List.mem_singleton.mp hx)
  | append_singleton since' d ih =>
    rw [← List.cons_append, ← List.append_assoc, order_append] at hx
    have old (hx : x ∈ since entry.sbnKey (order (before ++ (.register messageId entry, o) :: since'))) :
        x = entry.sbnKey ∨ Registered x (since' ++ [d]) := (ih hx).imp_right Registered.append
    obtain ⟨op, o'⟩ := d
    cases op with
    | register id e =>
      by_cases hkey : e.sbnKey = entry.sbnKey
      · rw [touch, hkey, since_touched] at hx
        exact .inl (List.mem_singleton.mp hx)
      · rcases mem_since_append hx with hx | rfl
        · exact old (mem_since_filter hx)
        · exact .inr ⟨id, e, o', by simp, rfl⟩
    | onNotificationRemoved => exact old hx
    | sendReply => exact old hx

/-! What an operation does to the maps -/

section Operations

variable {first : Maps → Str → Prop} {o : Except Throwable Bool}

def Maps.registered (s : Maps) (messageId : Str) (entry : ReplyEntry) : Maps :=
  ⟨s.ids.put messageId entry.sbnKey, s.entries.put entry.sbnKey entry⟩

def Maps.removed (s : Maps) (k : Str) : Maps := ⟨s.ids.removeValue k, s.entries.remove k⟩

/-- The maps after a registration, with or without an eviction. -/
def Registers (first : Maps → Str → Prop) (s : Maps) (messageId : Str) (entry : ReplyEntry) (s' : Maps) : Prop :=
  (s' = s.registered messageId entry ∧ s'.entries.size ≤ 100) ∨
    ∃ k ∈ (s.registered messageId entry).entries.keys, first (s.registered messageId entry) k ∧
      100 < (s.registered messageId entry).entries.size ∧ s' = (s.registered messageId entry).removed k

theorem register_must : (Operation.register messageId entry).run.Must (reacts first)
    (fun _ ↦ Registers first s messageId entry) s := by
  rintro _ _ ⟨rfl, -⟩ _ _ ⟨rfl, -, -⟩ size _ ⟨rfl, hsize, -⟩
  obtain rfl : size = (s.registered messageId entry).entries.size := hsize
  dsimp only [Prog.bind]
  split
  · rename_i hlt
    intro oldest _ h
    obtain ⟨rfl, hkey, hfirst⟩ := h
    cases oldest with
    | none =>
      have hnone : (s.registered messageId entry).entries.keys = [] := hkey
      rw [SharedMap.size_eq, hnone] at hlt
      cases hlt
    | some k =>
      rintro _ _ ⟨rfl, -, -⟩ _ _ ⟨rfl, -⟩
      exact .inr ⟨k, hkey, hfirst, hlt, rfl⟩
  · rename_i hle
    exact .inl ⟨rfl, Nat.not_lt.mp hle⟩

theorem onNotificationRemoved_must : (Operation.onNotificationRemoved k).run.Must (reacts first)
    (fun _ s' ↦ s' = s.removed k) s := by
  rintro _ _ ⟨rfl, -, -⟩ _ _ ⟨rfl, -⟩
  exact rfl

/-- A reply changes nothing unless it has been sent. -/
def Replies (s : Maps) (messageId : Str) (o : Except Throwable Bool) (s' : Maps) : Prop :=
  (o = .ok false ∧ s' = s) ∨ (o = .ok true ∧ ∃ k entry, s.ids.get messageId = some k ∧
    s.entries.get k = some entry ∧ s' = ⟨s.ids.remove messageId, s.entries.remove k⟩)

theorem fireReply_must {key text : Str} (hid : s.ids.get messageId = some k) (hentry : s.entries.get k = some entry) :
    (fireReply messageId k key text entry : Prog sig Throwable Bool).Must (reacts first) (Replies s messageId) s := by
  intro context _ heq
  subst heq
  cases context with
  | false => exact .inl ⟨rfl, rfl⟩
  | true =>
    intro fired _ heq
    subst heq
    cases fired with
    | false => exact .inl ⟨rfl, rfl⟩
    | true =>
      rintro _ _ rfl _ _ rfl _ _ ⟨rfl, -, -⟩ _ _ ⟨rfl, -⟩
      exact .inr ⟨rfl, k, entry, hid, hentry, rfl⟩

theorem sendReply_must (text : Str) : (Operation.sendReply messageId text).run.Must (reacts first)
    (Replies s messageId) s := by
  intro found _ h
  obtain ⟨rfl, hfound⟩ := h
  obtain rfl : found = s.ids.get messageId := hfound
  cases hid : s.ids.get messageId with
  | none => exact .inl ⟨rfl, rfl⟩
  | some k =>
    intro found _ h
    obtain ⟨rfl, hfound, -⟩ := h
    obtain rfl : found = s.entries.get k := hfound
    cases hentry : s.entries.get k with
    | none => exact .inl ⟨rfl, rfl⟩
    | some entry =>
      dsimp only [Prog.bind]
      split
      · exact .inl ⟨rfl, rfl⟩
      · exact fireReply_must hid hentry

end Operations

/-! Histories -/

theorem RegisteredLast.of_append {d : Done Operation Throwable Bool} {since' : History}
    (hl : RegisteredLast messageId entry since' (h ++ [d])) : (since' = [] ∧ d.1 = .register messageId entry) ∨
      ∃ since, since' = since ++ [d] ∧ RegisteredLast messageId entry since h := by
  obtain ⟨before, o, hsplit⟩ := hl.split
  have hlast := hl.last
  cases since' using List.reverseRecOn with
  | nil =>
    obtain ⟨-, hd⟩ := List.append_inj' hsplit rfl
    rw [List.singleton_inj.mp hd]
    exact .inl ⟨rfl, rfl⟩
  | append_singleton since d' =>
    rw [← List.cons_append, ← List.append_assoc] at hsplit
    obtain ⟨hh, hd⟩ := List.append_inj' hsplit rfl
    obtain rfl := List.singleton_inj.mp hd
    exact .inr ⟨since, rfl, ⟨before, o, hh⟩, fun entry' o' hmem ↦ hlast entry' o' (List.mem_append_left _ hmem)⟩

structure Inv (h : History) (s : Maps) : Prop where
  present : ∀ messageId sbnKey, s.ids.get messageId = some sbnKey → ∃ entry, s.entries.get sbnKey = some entry
  ordered : ∀ k ∈ s.entries.keys, k ∈ order h
  known : ∀ messageId entry since, RegisteredLast messageId entry since h →
    s.ids.get messageId = some entry.sbnKey ∨ Lost messageId entry.sbnKey since

theorem Inv.lost (hinv : Inv h s) {since : History} (hl : RegisteredLast messageId entry since h)
    (hmissing : Missing s messageId) : Lost messageId entry.sbnKey since := by
  refine (hinv.known messageId entry since hl).resolve_left fun hid ↦ ?_
  obtain ⟨e, he⟩ := hinv.present _ _ hid
  rw [Missing, hid, Option.bind_some, he] at hmissing
  cases hmissing

/-- What one more operation leaves to be shown of the messages registered before it. -/
theorem known_append {d : Done Operation Throwable Bool} (hinv : Inv h s)
    (hown : ∀ id e, d.1 = .register id e → s'.ids.get id = some e.sbnKey)
    (hkeep : ∀ id e since, RegisteredLast id e since h → RegisteredLast id e (since ++ [d]) (h ++ [d]) →
      s.ids.get id = some e.sbnKey → s'.ids.get id = some e.sbnKey ∨ Lost id e.sbnKey (since ++ [d]))
    (id : Str) (e : ReplyEntry) (since' : History) (hl : RegisteredLast id e since' (h ++ [d])) :
    s'.ids.get id = some e.sbnKey ∨ Lost id e.sbnKey since' := by
  rcases hl.of_append with ⟨rfl, hd⟩ | ⟨since, rfl, hold⟩
  · exact .inl (hown id e hd)
  · rcases hinv.known id e since hold with hid | hlost
    · exact hkeep id e since hold hl hid
    · exact .inr hlost.append

theorem Inv.registered (hinv : Inv h s) (o : Except Throwable Bool) :
    Inv (h ++ [(.register messageId entry, o)]) (s.registered messageId entry) := by
  refine ⟨fun id k hid ↦ ?_, fun k hk ↦ ?_, known_append hinv (fun id e hd ↦ ?_) fun id e since _ hl hid ↦ .inl ?_⟩
  · by_cases hk : k = entry.sbnKey
    · exact ⟨entry, SharedMap.get_put_some.mpr (.inl ⟨hk, rfl⟩)⟩
    · rcases SharedMap.get_put_some.mp hid with ⟨-, hk'⟩ | ⟨hid, -⟩
      · exact absurd hk' hk
      · obtain ⟨e, he⟩ := hinv.present id k hid
        exact ⟨e, SharedMap.get_put_some.mpr (.inr ⟨he, hk⟩)⟩
  · rw [order_append, touch, List.mem_append, List.mem_singleton]
    rw [Maps.registered, SharedMap.keys_put] at hk
    rcases List.mem_cons.mp hk with rfl | hk
    · exact .inr rfl
    · obtain ⟨hk, hne⟩ := List.mem_filter.mp hk
      exact .inl (List.mem_filter.mpr ⟨hinv.ordered k hk, hne⟩)
  · cases hd
    exact SharedMap.get_put_self
  · refine SharedMap.get_put_some.mpr (.inr ⟨hid, ?_⟩)
    intro heq
    subst heq
    exact hl.last entry o (List.mem_append_right _ List.mem_cons_self)

theorem Inv.removed (hinv : Inv h s) (hlost : ∀ id e since, RegisteredLast id e since h → e.sbnKey = k →
    s.ids.get id = some k → Lost id k since) : Inv h (s.removed k) := by
  refine ⟨fun id v hid ↦ ?_, fun v hv ↦ ?_, fun id e since hl ↦ ?_⟩
  · obtain ⟨hid, hv⟩ := SharedMap.get_filter_some.mp hid
    obtain ⟨e, he⟩ := hinv.present id v hid
    exact ⟨e, SharedMap.get_remove_some.mpr ⟨he, of_decide_eq_true hv⟩⟩
  · rw [Maps.removed, SharedMap.keys_remove] at hv
    exact hinv.ordered v (List.mem_filter.mp hv).1
  · rcases hinv.known id e since hl with hid | hgone
    · by_cases he : e.sbnKey = k
      · subst he
        exact .inr (hlost id e since hl rfl hid)
      · exact .inl (SharedMap.get_filter_some.mpr ⟨hid, decide_eq_true he⟩)
    · exact .inr hgone

/-- A full map without its oldest key. -/
theorem evicted_lost (hinv : Inv h s) (hfirst : Oldest (order h) s k) (hfull : 100 < s.entries.size)
    {since' : History} (hl : RegisteredLast messageId entry since' h) (hkey : entry.sbnKey = k) :
    Lost messageId k since' := by
  subst hkey
  obtain ⟨before, o, rfl⟩ := hl.split
  refine .inr (.inr ⟨(s.entries.remove entry.sbnKey).keys, (s.entries.remove _).nodup, ?_, fun x hx ↦ ?_⟩)
  · have hfound := List.find?_some hfirst
    have hmem : entry.sbnKey ∈ s.entries.keys := of_decide_eq_true hfound
    have hsize := SharedMap.size_remove hmem
    rw [← SharedMap.size_eq]
    omega
  · rw [SharedMap.keys_remove] at hx
    obtain ⟨hx, hne⟩ := List.mem_filter.mp hx
    have hsince := mem_since_of_find hfirst (hinv.ordered x hx) (decide_eq_true hx)
    exact ⟨of_decide_eq_true hne, (registered_of_since hsince).resolve_left (of_decide_eq_true hne)⟩

/-- The key that has just been registered is the oldest only if it is the only one. -/
theorem not_oldest (hinv : Inv h s) {o : Except Throwable Bool}
    (hfull : 100 < (s.registered messageId entry).entries.size)
    (hfirst : Oldest (order (h ++ [(.register messageId entry, o)])) (s.registered messageId entry) k) :
    k ≠ entry.sbnKey := by
  intro heq
  subst heq
  have hall : ∀ x ∈ (s.registered messageId entry).entries.keys, x ∈ [entry.sbnKey] := by
    intro x hx
    have hsince := mem_since_of_find hfirst ((hinv.registered o).ordered x hx) (decide_eq_true hx)
    rwa [order_append, touch, since_touched] at hsince
  have hnodup : (s.registered messageId entry).entries.keys.Nodup := (s.registered messageId entry).entries.nodup
  have hle := (List.subperm_of_subset hnodup hall).length_le
  rw [SharedMap.size_eq] at hfull
  simp only [List.length_singleton] at hle
  omega

theorem Inv.append (hinv : Inv h s) {d : Done Operation Throwable Bool} (hd : ∀ id e, d.1 ≠ .register id e) :
    Inv (h ++ [d]) s := by
  have hsame : touch (order h) d.1 = order h := by
    cases hop : d.1 with
    | register id e => exact absurd hop (hd id e)
    | _ => rfl
  refine ⟨hinv.present, ?_, known_append hinv (fun id e h ↦ absurd h (hd id e)) fun _ _ _ _ _ hid ↦ .inl hid⟩
  rw [order_append, hsame]
  exact hinv.ordered

theorem Inv.replied (hinv : Inv h s) {text : Str} (hid : s.ids.get messageId = some k)
    (hsole : ∀ id, s.ids.get id = some k → id = messageId) :
    Inv (h ++ [(.sendReply messageId text, .ok true)]) ⟨s.ids.remove messageId, s.entries.remove k⟩ := by
  have happend : Inv (h ++ [(.sendReply messageId text, .ok true)]) s := hinv.append fun _ _ hop ↦ by cases hop
  refine ⟨fun id v hv ↦ ?_, fun v hv ↦ ?_, fun id e since hl ↦ ?_⟩
  · obtain ⟨hv, hne⟩ := SharedMap.get_remove_some.mp hv
    obtain ⟨e, he⟩ := hinv.present id v hv
    refine ⟨e, SharedMap.get_remove_some.mpr ⟨he, fun hvk ↦ hne (hsole id ?_)⟩⟩
    rw [hv, hvk]
  · rw [SharedMap.keys_remove] at hv
    exact happend.ordered v (List.mem_filter.mp hv).1
  · rcases happend.known id e since hl with hv | hlost
    · by_cases hself : id = messageId
      · subst hself
        rcases hl.of_append with ⟨-, hop⟩ | ⟨since, rfl, -⟩
        · cases hop
        · exact .inr (.inr (.inl ⟨text, List.mem_append_right _ List.mem_cons_self⟩))
      · exact .inl (SharedMap.get_remove_some.mpr ⟨hv, hself⟩)
    · exact .inr hlost

/-! Any operations, one after another -/

def step : History × Maps → Operation → Except Throwable Bool → Maps → Prop
  | (_, s), op, o, s' => op.run.Runs (reacts fun _ _ ↦ True) s o s'

/-- A reply is sent only for a message that has its notification to itself. -/
def Sole (s : Maps) (messageId : Str) : Prop :=
  ∀ id k, s.ids.get messageId = some k → s.ids.get id = some k → id = messageId

/-- As `step`, under the condition that the key that comes first in a full map is the one
registered longest ago, and that a reply goes to a message that has its notification to itself. -/
def orderly : History × Maps → Operation → Except Throwable Bool → Maps → Prop
  | (h, s), op, o, s' => op.run.Runs (reacts (Oldest (touch (order h) op))) s o s' ∧
    ∀ messageId text, op = .sendReply messageId text → o = .ok true → Sole s messageId

/-- The entry of the last operation, if it is a registration, is there. -/
def Kept (h : History) (s : Maps) : Prop :=
  ∀ before messageId entry o, h = before ++ [(.register messageId entry, o)] →
    s.ids.get messageId = some entry.sbnKey ∧ s.entries.get entry.sbnKey = some entry

theorem kept_of_append {d : Done Operation Throwable Bool} (hd : ∀ id e, d.1 = .register id e →
    s.ids.get id = some e.sbnKey ∧ s.entries.get e.sbnKey = some e) : Kept (h ++ [d]) s := by
  intro before id e o heq
  obtain ⟨-, hlast⟩ := List.append_inj' heq rfl
  exact hd id e (congrArg Prod.fst (List.singleton_inj.mp hlast))

theorem inv_orderly {op : Operation} {o : Except Throwable Bool} (hinv : Inv h s) (hsize : s.entries.size ≤ 100)
    (hstep : orderly (h, s) op o s') :
    Inv (h ++ [(op, o)]) s' ∧ s'.entries.size ≤ 100 ∧ Kept (h ++ [(op, o)]) s' := by
  obtain ⟨hruns, hsole⟩ := hstep
  cases op with
  | register id e =>
    have hmust := register_must.of_runs hruns
    have hput : (s.registered id e).ids.get id = some e.sbnKey ∧
        (s.registered id e).entries.get e.sbnKey = some e := ⟨SharedMap.get_put_self, SharedMap.get_put_self⟩
    rcases hmust with ⟨rfl, hfit⟩ | ⟨k, hk, hfirst, hfull, rfl⟩
    · refine ⟨hinv.registered o, hfit, kept_of_append fun id' e' hd ↦ ?_⟩
      cases hd
      exact hput
    · replace hfirst : Oldest (order (h ++ [(.register id e, o)])) (s.registered id e) k := by
        rwa [order_append]
      have hne : k ≠ e.sbnKey := not_oldest hinv hfull hfirst
      refine ⟨(hinv.registered o).removed fun id' e' since hl hkey _ ↦ ?_, ?_, kept_of_append fun id' e' hd ↦ ?_⟩
      · exact evicted_lost (hinv.registered o) hfirst hfull hl hkey
      · have hput : (s.registered id e).entries.size ≤ s.entries.size + 1 := SharedMap.size_put_le
        have hremove := SharedMap.size_remove hk
        change ((s.registered id e).entries.remove k).size ≤ 100
        omega
      · cases hd
        exact ⟨SharedMap.get_filter_some.mpr ⟨hput.1, decide_eq_true hne.symm⟩,
          SharedMap.get_remove_some.mpr ⟨hput.2, hne.symm⟩⟩
  | onNotificationRemoved k =>
    obtain rfl := onNotificationRemoved_must.of_runs hruns
    have happend : Inv (h ++ [(.onNotificationRemoved k, o)]) s := hinv.append fun _ _ hop ↦ by cases hop
    refine ⟨happend.removed fun id e since hl _ _ ↦ ?_, SharedMap.size_remove_le.trans hsize,
      kept_of_append fun _ _ hop ↦ by cases hop⟩
    rcases hl.of_append with ⟨-, hop⟩ | ⟨since, rfl, -⟩
    · cases hop
    · exact .inl ⟨o, List.mem_append_right _ List.mem_cons_self⟩
  | sendReply id text =>
    rcases (sendReply_must text).of_runs hruns with ⟨rfl, rfl⟩ | ⟨rfl, k, e, hid, -, rfl⟩
    · exact ⟨hinv.append (fun _ _ hop ↦ by cases hop), hsize, kept_of_append fun _ _ hop ↦ by cases hop⟩
    · exact ⟨hinv.replied hid fun id' hid' ↦ hsole id text rfl rfl id' k hid hid',
        SharedMap.size_remove_le.trans hsize, kept_of_append fun _ _ hop ↦ by cases hop⟩

theorem inv_init : Inv [] .init := by
  refine ⟨fun id k hid ↦ ?_, fun k hk ↦ ?_, fun id e since hl ↦ ?_⟩
  · cases hid
  · cases hk
  · obtain ⟨before, o, hsplit⟩ := hl.split
    simp at hsplit

/-- In every history that keeps to the condition the two maps belong together. -/
theorem coherent (h : History) (s : Maps) (hs : Serial orderly Maps.init h s) : Coherent h s := by
  have hall : Inv h s ∧ s.entries.size ≤ 100 ∧ Kept h s := by
    refine hs.invariant (I := fun h s ↦ Inv h s ∧ s.entries.size ≤ 100 ∧ Kept h s) ⟨inv_init, Nat.zero_le _, ?_⟩ ?_
    · intro before id e o heq
      simp at heq
    · intro h t op o t' ⟨hinv, hsize, _⟩ hstep
      exact inv_orderly hinv hsize hstep
  exact ⟨hall.1.present, fun id e since hl ↦ hall.1.lost hl, hall.2.2⟩

/-! Histories with one notification -/

/-- The answers of a world in which a reply is always sent. -/
def sem : (op : Op) → Maps → sig.Resp op × Maps
  | .ids op, s => (s.ids.answer op, { s with ids := s.ids.after op })
  | .entries op, s => (s.entries.answer op, { s with entries := s.entries.after op })
  | .dedup (.isNew ..), s | .hasContext, s | .fire .., s => (true, s)
  | .dedup (.sentTime ..), s => ((none : Option ℤ), s)
  | .dedup (.markSent ..), s => ((), s)
  | .currentTimeMillis, s => ((0 : ℤ), s)

/-- A call that does not ask for the first key. -/
def Unordered (op : Op) : Prop := op ≠ .entries .firstKey

instance (op : Op) : Decidable (Unordered op) := inferInstanceAs (Decidable (_ ≠ _))

theorem reacts_sem {first : Maps → Str → Prop} (op : Op) (s : Maps) (hop : Unordered op) :
    reacts first op s (sem op s).1 (sem op s).2 := by
  cases op with
  | ids op => exact ⟨rfl, s.ids.answers_answer op⟩
  | entries op =>
    refine ⟨rfl, s.entries.answers_answer op, ?_⟩
    cases op with
    | firstKey => exact absurd rfl hop
    | _ => trivial
  | dedup op => cases op <;> rfl
  | currentTimeMillis => rfl
  | hasContext => rfl
  | fire entry key text => rfl

def conversation : ReplyEntry :=
  ⟨⟨false, none, some [⟨some [⟨"reply".toList⟩]⟩]⟩, "com.samsung.android.messaging", "0|sms|7"⟩

def greeting : Operation := .register "1_hi".toList conversation

def question : Operation := .register "1_there?".toList conversation

def answer : Operation := .sendReply "1_hi".toList "Hello".toList

def mapsAfter (ops : List Operation) : Maps := ops.foldl (fun s op ↦ (op.run.exec sem s).2) .init

theorem coherent_answered : ∃ h s, Serial orderly Maps.init h s ∧ h.map Prod.fst = [greeting, answer] ∧
    Coherent h s := by
  have hgreeting := Prog.runs_exec (@reacts_sem (Oldest (touch [] greeting))) greeting.run (mapsAfter [])
    (by decide +kernel)
  have hanswer := Prog.runs_exec (@reacts_sem (Oldest (touch (touch [] greeting) answer))) answer.run
    (mapsAfter [greeting]) (by decide +kernel)
  have hsole : Sole (mapsAfter [greeting]) "1_hi".toList := by
    intro id k _ hid
    rcases SharedMap.get_put_some.mp hid with ⟨rfl, -⟩ | ⟨hid, -⟩
    · rfl
    · cases hid
  have hs : Serial orderly Maps.init [(greeting, .ok true), (answer, .ok true)] (mapsAfter [greeting, answer]) := by
    refine .next (h := [(greeting, .ok true)]) (.next .init ⟨hgreeting, fun _ _ hop ↦ by cases hop⟩) ⟨hanswer, ?_⟩
    intro id text hop _
    cases hop
    exact hsole
  exact ⟨_, _, hs, rfl, coherent _ _ hs⟩

/-- The reply to the first of two messages takes the entry of the second with it. -/
theorem incoherent_answered : ∃ h s, Serial step Maps.init h s ∧ h.map Prod.fst = [greeting, question, answer] ∧
    s.ids.get "1_there?".toList = some conversation.sbnKey ∧ s.entries.get conversation.sbnKey = none ∧
      ¬Coherent h s := by
  have hgreeting := Prog.runs_exec (@reacts_sem fun _ _ ↦ True) greeting.run (mapsAfter [])
    (by decide +kernel)
  have hquestion := Prog.runs_exec (@reacts_sem fun _ _ ↦ True) question.run (mapsAfter [greeting])
    (by decide +kernel)
  have hanswer := Prog.runs_exec (@reacts_sem fun _ _ ↦ True) answer.run (mapsAfter [greeting, question])
    (by decide +kernel)
  have hid : (mapsAfter [greeting, question, answer]).ids.get "1_there?".toList = some conversation.sbnKey := by
    decide +kernel
  have hentry : (mapsAfter [greeting, question, answer]).entries.get conversation.sbnKey = none := by decide +kernel
  refine ⟨_, mapsAfter [greeting, question, answer],
    Serial.next (Serial.next (Serial.next .init hgreeting) hquestion) hanswer, rfl, hid, hentry, fun hcoherent ↦ ?_⟩
  obtain ⟨entry, hget⟩ := hcoherent.present _ _ hid
  rw [hentry] at hget
  cases hget

end Aigentik.ReplyMaps
