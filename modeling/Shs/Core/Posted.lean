import Mathlib
import Shs.Core.Epoll

/-!
# Core.Posted

The queues of posted events over every run. `Queues` says what each step keeps: the lists behind
the two queue heads, which event is in which, and what was recorded when it was posted. It is kept
as long as no event is posted that is still linked, and no connection is re-initialised while one
of its events is linked.
-/

namespace Shs
namespace Epoll

open Queue

/-- The two queues of an event base. -/
def head : Bool → Cell
  | true => .acceptHead
  | false => .postedHead

def State.runs (s : State) (x : Cell) : Nat := s.calls.countP fun k => k.posted && k.event == x

theorem head_injective {b b' : Bool} (h : head b = head b') : b = b' := by
  cases b <;> cases b' <;> simp_all [head]

@[simp] theorem head_event (b : Bool) : (head b).event? = none := by
  cases b <;> rfl

/-- What holds of an event that is linked. -/
structure Linked (s : State) (x : Cell) (c : Nat) (w : Bool) : Prop where
  event : x.event? = some (c, w)
  handler : ((s.conns c).event w).handler
  postedFor : s.postedFor x = (s.conns c).inits

structure Queues (s : State) (l : Bool → List Cell) : Prop where
  running : s.pc ≠ .crashed
  loop : ∀ q, s.pc = .drain q ∨ s.pc = .inPosted q → ∃ b, q = head b
  ring : ∀ b, LinkedRing s.links (head b) (l b)
  one : ∀ b b' x, x ∈ l b → x ∈ l b' → b = b'
  linked : ∀ b, ∀ x ∈ l b, ∃ c w, Linked s x c w
  null : ∀ x, x.event?.isSome → (∀ b, x ∉ l b) → s.links.next x = none
  unposted : ∀ x, (∀ b, x ∉ l b) → s.runs x ≤ s.posts x
  waiting : ∀ b, ∀ x ∈ l b, s.runs x + 1 ≤ s.posts x
  current : ∀ k ∈ s.calls, k.posted → k.Current

section

variable {s : State} {links : Links Cell} {x y : Cell} {c : Nat}

theorem posted_posts_self : (s.posted x c links).posts x = s.posts x + 1 := Function.update_self ..

theorem posted_posts_of_ne (hne : y ≠ x) : (s.posted x c links).posts y = s.posts y :=
  Function.update_of_ne hne ..

theorem posted_postedFor_self : (s.posted x c links).postedFor x = (s.conns c).inits :=
  Function.update_self ..

theorem posted_postedFor_of_ne (hne : y ≠ x) :
    (s.posted x c links).postedFor y = s.postedFor y := Function.update_of_ne hne ..

end

theorem post_eq {q x : Cell} {c : Nat} {s : State} {cont : State → State} {links : Links Cell}
    (h : queueInsertTail q x s.links = some links) :
    Epoll.post q x c s cont = cont (s.posted x c links) := by
  simp [Epoll.post, h]

/-- The read event of `e` is to be posted, if `e` is not found to be stale. -/
def PostsRead (s : State) (e : Reported) : Prop :=
  let v := s.conns e.of.conn
  e.masked.epollin ∧ v.read.active ∧ v.read.handler

/-- The write event of `e` is to be posted. -/
def PostsWrite (s : State) (e : Reported) : Prop :=
  let v := s.conns e.of.conn
  (e.masked.epollin ∧ v.read.active → v.read.handler) ∧ WriteHandled s e.masked

/-- No event is posted that is still linked, and no connection is re-initialised while one of its
events is linked. -/
def Unlinked (s : State) (a : Act) : Prop :=
  match a, s.pc with
  | .next, .batch true (e :: _) =>
    let v := s.conns e.of.conn
    v.fd ≠ -1 ∧ v.read.instanceBit = e.of.bit →
      (PostsRead s e → s.links.next (.read e.of.conn) = none) ∧
        (PostsWrite s e → s.links.next (.write e.of.conn) = none)
  | .op (.setDefault c _), pc =>
    pc.handling ∧ c ∉ s.free → s.links.next (.read c) = none ∧ s.links.next (.write c) = none
  | _, _ => True

theorem runs_call_self {s : State} {x : Cell} {c n : Nat} {pc : Pc} :
    (State.goto pc (s.call x c true n)).runs x = s.runs x + 1 := by
  simp [State.runs, State.call, State.goto]

theorem runs_call_of_ne {s : State} {x y : Cell} {c n : Nat} {pc : Pc} (hne : y ≠ x) :
    (State.goto pc (s.call x c true n)).runs y = s.runs y := by
  simp [State.runs, State.call, State.goto, hne.symm]

instance (s : State) (e : Reported) : Decidable (PostsRead s e) :=
  inferInstanceAs (Decidable (_ ∧ _ ∧ _))

instance (s : State) (e : Reported) : Decidable (PostsWrite s e) :=
  inferInstanceAs (Decidable ((_ → _) ∧ _))

instance (s : State) (a : Act) : Decidable (Unlinked s a) := by
  unfold Unlinked
  exact match a, s.pc with
    | .next, .batch true (e :: _) =>
      inferInstanceAs (Decidable (_ ∧ _ → (PostsRead s e → _) ∧ (PostsWrite s e → _)))
    | .op (.setDefault c _), pc => inferInstanceAs (Decidable (pc.handling ∧ c ∉ s.free → _ ∧ _))
    | .next, .batch true [] | .next, .batch false _ | .next, .idle | .next, .inRead _ _
    | .next, .inWrite _ | .next, .drain _ | .next, .inPosted _ | .next, .crashed
    | .wait _ _, _ | .drain _, _ | .ret, _
    | .op .getConnection, _ | .op (.freeConnection _), _ | .op (.setEvBase _), _
    | .op (.setHandler _ _), _ | .op (.setAccepted _), _ | .op (.addEvent _ _ _), _
    | .op (.delEvent _ _ _ _), _ | .op (.addConnection _ _), _ | .op (.delConnection _ _ _), _
    | .op (.close _), _ | .op (.closeFd _), _ => .isTrue trivial

namespace Queues

variable {s t : State} {l : Bool → List Cell} {b : Bool} {x : Cell} {c : Nat} {w : Bool}

theorem ne_head (h : Queues s l) (hx : x ∈ l b) (b' : Bool) : x ≠ head b' := by
  rintro rfl
  obtain ⟨c, w, hl⟩ := h.linked b _ hx
  simpa using hl.event

theorem notMem_cons (h : Queues s l) {b' : Bool} (hb : b' ≠ b) (hx : x ∈ head b :: l b) :
    x ∉ head b' :: l b' := by
  rcases List.mem_cons.1 hx with rfl | hx
  · rw [List.mem_cons, not_or]
    exact ⟨fun he => hb (head_injective he).symm, fun hm => h.ne_head hm b rfl⟩
  · rw [List.mem_cons, not_or]
    exact ⟨h.ne_head hx b', fun hm => hb (h.one _ _ _ hm hx)⟩

/-- A linked event does not have null links. -/
theorem next_ne_none (h : Queues s l) (hx : x ∈ l b) : s.links.next x ≠ none := by
  obtain ⟨l₁, l₂, hl⟩ := List.append_of_mem hx
  have hr := h.ring b
  rw [hl] at hr
  simp [hr.joined_after.1]

theorem notMem_of_null (h : Queues s l) (hx : s.links.next x = none) (b : Bool) : x ∉ l b :=
  fun hm => h.next_ne_none hm hx

/-- Connections keep their incarnations, and the queues are not touched. -/
theorem kept (h : Queues s l) (hpc : t.pc ≠ .crashed)
    (hloop : ∀ q, t.pc = .drain q ∨ t.pc = .inPosted q → ∃ b, q = head b)
    (hconns : ∀ c, Kept (s.conns c) (t.conns c)) (hlinks : t.links = s.links)
    (hposts : t.posts = s.posts) (hfor : t.postedFor = s.postedFor)
    (hcalls : t.calls.filter (·.posted) = s.calls.filter (·.posted)) : Queues t l := by
  have hruns (x : Cell) : t.runs x = s.runs x := by
    have hcount (u : State) :
        u.runs x = (u.calls.filter (·.posted)).countP (fun k => k.event == x) := by
      rw [List.countP_filter]
      exact List.countP_congr fun k _ => by simp [and_comm]
    rw [hcount, hcount, hcalls]
  refine ⟨hpc, hloop, hlinks ▸ h.ring, h.one, fun b x hx => ?_, hlinks ▸ h.null, ?_, ?_, ?_⟩
  · obtain ⟨c, w, hx, hh, hf⟩ := h.linked b x hx
    exact ⟨c, w, hx, (hconns c).handler w hh, by rw [hfor, hf, (hconns c).inits]⟩
  · simpa only [hruns, hposts] using h.unposted
  · simpa only [hruns, hposts] using h.waiting
  · intro k hk hp
    have hmem : k ∈ s.calls.filter (·.posted) := hcalls ▸ List.mem_filter.2 ⟨hk, hp⟩
    exact h.current k (List.mem_filter.1 hmem).1 hp

theorem goto (h : Queues s l) {pc : Pc} (hpc : pc ≠ .crashed)
    (hloop : ∀ q, pc = .drain q ∨ pc = .inPosted q → ∃ b, q = head b) : Queues (s.goto pc) l :=
  h.kept hpc hloop (fun _ => Kept.refl _) rfl rfl rfl rfl

/-- To the head of a loop over one of the queues. -/
theorem goto_drain (h : Queues s l) (b : Bool) : Queues (s.goto (.drain (head b))) l := by
  refine h.goto (by simp) ?_
  rintro q (hq | hq) <;> cases hq
  exact ⟨b, rfl⟩

theorem setConn (h : Queues s l) {v : Conn} (hv : Kept (s.conns c) v) :
    Queues (s.setConn c v) l :=
  h.kept h.running h.loop (kept_setConn hv) rfl rfl rfl rfl

theorem call (h : Queues s l) (n : Nat) : Queues (s.call x c false n) l :=
  h.kept h.running h.loop (fun _ => Kept.refl _) rfl rfl rfl rfl

theorem mem_concat {b' : Bool} {y : Cell} :
    y ∈ Function.update l b (l b ++ [x]) b' ↔ y ∈ l b' ∨ b' = b ∧ y = x := by
  by_cases hb : b' = b
  · subst hb
    simp
  · simp [hb]

/-- An event in no queue is put at the end of one. -/
theorem post (h : Queues s l) (hx : x.event? = some (c, w)) (hnew : ∀ b, x ∉ l b)
    (hh : ((s.conns c).event w).handler) (b : Bool) :
    ∃ links, queueInsertTail (head b) x s.links = some links ∧
      Queues (s.posted x c links) (Function.update l b (l b ++ [x])) := by
  have hhead (b' : Bool) : x ≠ head b' := by
    rintro rfl
    simp at hx
  have hout : x ∉ head b :: l b := by
    rw [List.mem_cons, not_or]
    exact ⟨hhead b, hnew b⟩
  obtain ⟨heq, hring⟩ := queueInsertTail_ring (h.ring b) hout
  have hbefore := LinkedRing.before_mem (h := head b) (l := l b)
  refine ⟨_, heq, h.running, h.loop, fun b' => ?_, ?_, fun b' y hy => ?_, ?_, ?_, ?_, h.current⟩
  · by_cases hb : b' = b
    · subst hb
      rw [Function.update_self]
      exact hring
    · rw [Function.update_of_ne hb]
      refine (h.ring b').frame_between (h.notMem_cons hb hbefore) ?_
        (h.notMem_cons hb List.mem_cons_self)
      rw [List.mem_cons, not_or]
      exact ⟨hhead b', hnew b'⟩
  · intro b₁ b₂ y h₁ h₂
    rw [mem_concat] at h₁ h₂
    rcases h₁ with h₁ | ⟨rfl, rfl⟩
    · rcases h₂ with h₂ | ⟨rfl, rfl⟩
      · exact h.one b₁ b₂ y h₁ h₂
      · exact absurd h₁ (hnew b₁)
    · rcases h₂ with h₂ | ⟨rfl, -⟩
      · exact absurd h₂ (hnew b₂)
      · rfl
  · rcases mem_concat.1 hy with hy | ⟨rfl, rfl⟩
    · obtain ⟨c', w', hl⟩ := h.linked b' y hy
      have hyx : y ≠ x := ne_of_mem_of_not_mem hy (hnew b')
      exact ⟨c', w', hl.event, hl.handler, (posted_postedFor_of_ne hyx).trans hl.postedFor⟩
    · exact ⟨c, w, hx, hh, posted_postedFor_self⟩
  · intro y hy hnot
    have hyx : y ≠ x := fun he => hnot b (mem_concat.2 (.inr ⟨rfl, he⟩))
    have hyb : y ≠ LinkedRing.before (head b) (l b) := by
      rintro rfl
      rcases List.mem_cons.1 hbefore with he | hm
      · simp [he] at hy
      · exact hnot b (mem_concat.2 (.inl hm))
    simp only [State.posted, Links.between, if_neg hyx, if_neg hyb]
    exact h.null y hy fun b' hm => hnot b' (mem_concat.2 (.inl hm))
  · intro y hnot
    have hyx : y ≠ x := fun he => hnot b (mem_concat.2 (.inr ⟨rfl, he⟩))
    rw [posted_posts_of_ne hyx]
    exact h.unposted y fun b' hm => hnot b' (mem_concat.2 (.inl hm))
  · intro b' y hy
    rcases mem_concat.1 hy with hy | ⟨rfl, rfl⟩
    · rw [posted_posts_of_ne (ne_of_mem_of_not_mem hy (hnew b'))]
      exact h.waiting b' y hy
    · rw [posted_posts_self]
      exact Nat.succ_le_succ (h.unposted y hnew)

/-- The first event of a queue is taken out. -/
theorem take {r : List Cell} (h : Queues s l) (hl : l b = x :: r) :
    ∃ links c w, queueHead s.links (head b) = some x ∧ queueRemove x s.links = some links ∧
      Linked s x c w ∧ x ∉ r ∧
      Queues { s with links := links } (Function.update l b r) := by
  have hring := h.ring b
  rw [hl] at hring
  obtain ⟨heq, hrest⟩ := queueRemove_ring
    (show LinkedRing _ _ ([] ++ x :: r) from hring)
  obtain ⟨c, w, hlinked⟩ := h.linked b x (by simp [hl])
  have hxr : x ∉ r := (List.nodup_cons.1 hring.nodup_tail).1
  have hcell : ∀ y ∈ head b :: r, y ∈ head b :: l b := by
    intro y hy
    rw [hl]
    rcases List.mem_cons.1 hy with rfl | hy
    · exact List.mem_cons_self
    · simp [hy]
  have hafter : LinkedRing.after (head b) r ∈ head b :: r := by
    have hm := LinkedRing.after_mem (h := head b) (l := r)
    rwa [List.mem_append, List.mem_singleton, or_comm, ← List.mem_cons] at hm
  have hmem : ∀ b' y, y ∈ Function.update l b r b' → y ∈ l b' := by
    intro b' y hy
    by_cases hb : b' = b
    · subst hb
      rw [Function.update_self] at hy
      simp [hl, hy]
    · rwa [Function.update_of_ne hb] at hy
  have hgone : ∀ b', x ∉ Function.update l b r b' := by
    intro b' hx
    by_cases hb : b' = b
    · subst hb
      rw [Function.update_self] at hx
      exact hxr hx
    · exact hb (h.one b' b x (hmem b' x hx) (by simp [hl]))
  refine ⟨_, c, w, hring.next_head, heq, hlinked, hxr, h.running, h.loop, fun b' => ?_,
    fun b₁ b₂ y h₁ h₂ => h.one b₁ b₂ y (hmem b₁ y h₁) (hmem b₂ y h₂),
    fun b' y hy => ?_, ?_, ?_, fun b' y hy => h.waiting b' y (hmem b' y hy), h.current⟩
  · by_cases hb : b' = b
    · subst hb
      rw [Function.update_self]
      exact hrest
    · rw [Function.update_of_ne hb]
      exact (h.ring b').frame_without (h.notMem_cons hb List.mem_cons_self)
        (h.notMem_cons hb (by simp [hl])) (h.notMem_cons hb (hcell _ hafter))
  · obtain ⟨c', w', hl'⟩ := h.linked b' y (hmem b' y hy)
    exact ⟨c', w', hl'.event, hl'.handler, hl'.postedFor⟩
  · intro y hy hnot
    by_cases hyx : y = x
    · simp [Links.without, hyx]
    · have hyb : y ≠ head b := by
        rintro rfl
        simp at hy
      have hsame : (s.links.without (LinkedRing.before (head b) []) x
          (LinkedRing.after (head b) r)).next y = s.links.next y := by
        simp [Links.without, hyx, hyb]
      rw [hsame]
      refine h.null y hy fun b' hm => hnot b' ?_
      by_cases hb : b' = b
      · subst hb
        rw [hl] at hm
        rw [Function.update_self]
        exact (List.mem_cons.1 hm).resolve_left hyx
      · rwa [Function.update_of_ne hb]
  · intro y hnot
    by_cases hyx : y = x
    · have hw := h.waiting b x (by simp [hl])
      subst hyx
      exact Nat.le_of_succ_le hw
    · refine h.unposted y fun b' hm => hnot b' ?_
      by_cases hb : b' = b
      · subst hb
        rw [hl] at hm
        rw [Function.update_self]
        exact (List.mem_cons.1 hm).resolve_left hyx
      · rwa [Function.update_of_ne hb]

theorem processWrite {posting : Bool} {e : Reported} {rest : List Reported} (h : Queues s l)
    (hnew : posting = true → WriteHandled s e → ∀ b, .write e.of.conn ∉ l b) :
    ∃ l', Queues (processWrite posting e rest s) l' := by
  simp only [Epoll.processWrite]
  split
  · rename_i hw
    rw [Bool.and_eq_true] at hw
    split
    · exact ⟨l, (h.setConn (kept_ready _ true)).goto (by simp) (by simp)⟩
    · rename_i hh
      simp only [Conn.ready_write_handler, Bool.not_eq_true', Bool.not_eq_false] at hh
      split
      · rename_i hp
        have hkept := (kept_ready (s.conns e.of.conn) true).trans (kept_last _ e.of.bit)
        obtain ⟨links, heq, hq⟩ := (h.setConn hkept).post (x := .write e.of.conn)
          (c := e.of.conn) (w := true) rfl (hnew hp ⟨hw.1, hw.2, hh⟩)
          (by simpa [State.setConn] using hkept.handler true hh) false
        rw [show Cell.postedHead = head false from rfl, post_eq heq]
        exact ⟨_, hq.goto (by simp) (by simp)⟩
      · exact ⟨l, ((h.setConn (kept_ready _ true)).call _).goto (by simp) (by simp)⟩
  · exact ⟨l, h.goto (by simp) (by simp)⟩

theorem processEvent {posting : Bool} {e : Reported} {rest : List Reported} (h : Queues s l)
    (hok : posting = true →
      (s.conns e.of.conn).fd ≠ -1 ∧ (s.conns e.of.conn).read.instanceBit = e.of.bit →
        (PostsRead s e → s.links.next (.read e.of.conn) = none) ∧
          (PostsWrite s e → s.links.next (.write e.of.conn) = none)) :
    ∃ l', Queues (processEvent posting e rest s) l' := by
  simp only [Epoll.processEvent, masked_of]
  split
  · exact ⟨l, h.goto (by simp) (by simp)⟩
  rename_i hfresh
  push Not at hfresh
  have hread (hp : posting = true) (hr : PostsRead s e) (b : Bool) : .read e.of.conn ∉ l b :=
    h.notMem_of_null ((hok hp hfresh).1 hr) b
  have hwrite (hp : posting = true) (hw : PostsWrite s e) (b : Bool) : .write e.of.conn ∉ l b :=
    h.notMem_of_null ((hok hp hfresh).2 hw) b
  split
  · rename_i hr
    rw [Bool.and_eq_true] at hr
    split
    · exact ⟨l, (h.setConn (kept_ready _ false)).goto (by simp) (by simp)⟩
    · rename_i hh
      simp only [Conn.ready_read_handler, Bool.not_eq_true', Bool.not_eq_false] at hh
      split
      · rename_i hp
        have hkept := (kept_ready (s.conns e.of.conn) false).trans (kept_last _ e.of.bit)
        obtain ⟨b, hb⟩ : ∃ b, (if ((s.conns e.of.conn).ready false).read.accepted = true
            then Cell.acceptHead else .postedHead) = head b := by
          split
          · exact ⟨true, rfl⟩
          · exact ⟨false, rfl⟩
        obtain ⟨links, heq, hq⟩ := (h.setConn hkept).post (x := .read e.of.conn)
          (c := e.of.conn) (w := false) rfl (hread hp ⟨hr.1, hr.2, hh⟩)
          (by simpa [State.setConn] using hkept.handler false hh) b
        rw [hb, post_eq heq]
        refine hq.processWrite fun _ hw b' hm => ?_
        rw [masked_of] at hm
        rcases mem_concat.1 hm with hm | ⟨-, hm⟩
        · refine hwrite hp ⟨fun _ => hh, ?_⟩ b' hm
          simpa [WriteHandled, State.setConn, State.posted] using hw
        · cases hm
      · exact ⟨l, ((h.setConn (kept_ready _ false)).call _).goto (by simp) (by simp)⟩
  · rename_i hr
    refine h.processWrite fun hp hw => ?_
    rw [masked_of]
    exact hwrite hp ⟨fun hi => absurd (by simpa using hi) hr, hw⟩

/-- A connection none of whose events is linked is re-initialised. -/
theorem connSetDefault (h : Queues s l) (c : Nat) (fd : Int) (hr : ∀ b, .read c ∉ l b)
    (hw : ∀ b, .write c ∉ l b) : Queues (connSetDefault c fd s) l := by
  have hne : ∀ b, ∀ x ∈ head b :: l b, x ≠ .read c ∧ x ≠ .write c := by
    intro b x hx
    rcases List.mem_cons.1 hx with rfl | hx
    · cases b <;> exact ⟨by simp [head], by simp [head]⟩
    · exact ⟨ne_of_mem_of_not_mem hx (hr b), ne_of_mem_of_not_mem hx (hw b)⟩
  refine ⟨h.running, h.loop, fun b => (h.ring b).congr fun x hx => ?_, h.one, fun b x hx => ?_, ?_,
    h.unposted, h.waiting, h.current⟩
  · obtain ⟨h1, h2⟩ := hne b x hx
    simp [Epoll.connSetDefault, Links.setNext, Links.setPrev, h1, h2]
  · obtain ⟨h1, h2⟩ := hne b x (List.mem_cons_of_mem _ hx)
    obtain ⟨d, w, hl⟩ := h.linked b x hx
    have hd : d ≠ c := by
      rintro rfl
      have hev := hl.event
      cases x <;> simp_all [Cell.event?]
    have hconn : (Epoll.connSetDefault c fd s).conns d = s.conns d := Function.update_of_ne hd ..
    exact ⟨d, w, hl.event, by rw [hconn]; exact hl.handler, by rw [hconn]; exact hl.postedFor⟩
  · intro x hx hnot
    have hnull := h.null x hx hnot
    by_cases h1 : x = .read c <;> by_cases h2 : x = .write c <;>
      simp [Epoll.connSetDefault, Links.setNext, Links.setPrev, h1, h2, hnull]

/-- Everything but `conn_set_default` leaves the incarnations and the queues as they are. -/
theorem run_frame (o : Op) (s : State) (ho : ∀ c fd, o ≠ .setDefault c fd) :
    (∀ d, ((o.run s).conns d).inits = (s.conns d).inits) ∧ (o.run s).links = s.links ∧
      (o.run s).posts = s.posts ∧ (o.run s).postedFor = s.postedFor := by
  have hset {s t : State} {c : Nat} {v : Conn} (hv : v.inits = (s.conns c).inits)
      (ht : t.conns = s.conns) (d : Nat) :
      ((t.setConn c v).conns d).inits = (s.conns d).inits := by
    by_cases hd : d = c
    · subst hd
      simpa [State.setConn] using hv
    · simp [State.setConn, Function.update_of_ne hd, ht]
  have hevent (c : Conn) (w : Bool) (e : Event) : (c.setEvent w e).inits = c.inits := by
    cases w <;> rfl
  have hclose (c : Nat) (s : State) : (∀ d, ((closeFd c s).conns d).inits = (s.conns d).inits) ∧
      (closeFd c s).links = s.links ∧ (closeFd c s).posts = s.posts ∧
      (closeFd c s).postedFor = s.postedFor := by
    simp only [closeFd]
    split
    · exact ⟨fun _ => rfl, rfl, rfl, rfl⟩
    · exact ⟨hset rfl rfl, rfl, rfl, rfl⟩
  cases o with
  | getConnection => exact ⟨fun _ => rfl, rfl, rfl, rfl⟩
  | freeConnection c => exact ⟨fun _ => rfl, rfl, rfl, rfl⟩
  | setDefault c fd => exact absurd rfl (ho c fd)
  | setEvBase c => exact ⟨hset rfl rfl, rfl, rfl, rfl⟩
  | setHandler c w => exact ⟨hset (hevent _ _ _) rfl, rfl, rfl, rfl⟩
  | setAccepted c => exact ⟨hset rfl rfl, rfl, rfl, rfl⟩
  | addEvent c w ok =>
    simp only [Op.run, epollAddEvent]
    split <;> exact ⟨hset (hevent _ _ _) rfl, rfl, rfl, rfl⟩
  | delEvent c w closing ok =>
    simp only [Op.run, epollDelEvent]
    split
    · exact ⟨hset (hevent _ _ _) rfl, rfl, rfl, rfl⟩
    · split
      · split <;> exact ⟨hset (hevent _ _ _) rfl, rfl, rfl, rfl⟩
      · exact ⟨fun _ => rfl, rfl, rfl, rfl⟩
  | addConnection c ok =>
    simp only [Op.run, epollAddConnection]
    split
    · exact ⟨hset rfl rfl, rfl, rfl, rfl⟩
    · exact ⟨fun _ => rfl, rfl, rfl, rfl⟩
  | delConnection c closing ok =>
    simp only [Op.run, epollDelConnection]
    split
    · exact ⟨hset rfl rfl, rfl, rfl, rfl⟩
    · split
      · exact ⟨hset rfl rfl, rfl, rfl, rfl⟩
      · exact ⟨fun _ => rfl, rfl, rfl, rfl⟩
  | close c =>
    simp only [Op.run, connClose]
    split
    · obtain ⟨hinits, hrest⟩ := hclose c s
      split
      · refine ⟨fun d => ?_, hrest⟩
        rw [← hinits d]
        simp only [epollDelConnection, if_true]
        refine hset (s := closeFd c s) ?_ ?_ d <;> rfl
      · exact ⟨hinits, hrest⟩
    · exact ⟨fun _ => rfl, rfl, rfl, rfl⟩
  | closeFd c => exact hclose c s

/-- An operation of a handler leaves the queues as they are. -/
theorem op {o : Op} (h : Queues s l) (hok : Unlinked s (.op o)) : Queues (step s (.op o)) l := by
  simp only [step]
  split
  · rename_i hg
    rw [Bool.and_eq_true] at hg
    by_cases ho : ∃ c fd, o = .setDefault c fd
    · obtain ⟨c, fd, rfl⟩ := ho
      have hnull := hok ⟨hg.1, by simpa [Op.conn?] using hg.2⟩
      exact h.connSetDefault c fd (h.notMem_of_null hnull.1) (h.notMem_of_null hnull.2)
    · obtain ⟨hinits, hlinks, hposts, hfor⟩ := run_frame o s fun c fd hc => ho ⟨c, fd, hc⟩
      obtain ⟨hpc, hcalls⟩ := run_pc_calls o s
      refine h.kept (hpc ▸ h.running) (hpc ▸ h.loop) (fun d => ?_) hlinks hposts hfor
        (by rw [hcalls])
      rcases (moved_run o s).conns d with hk | hn
      · exact hk
      · have hi := hn.inits
        rw [hinits d] at hi
        omega
  · exact h

/-- The next iteration of `event_process_posted`: it ends with an empty queue, and takes the first
event otherwise. -/
theorem processPosted (h : Queues s l) (b : Bool) :
    (l b = [] → Epoll.processPosted (head b) s = s.goto .idle) ∧
      ∀ x r, l b = x :: r → Queues (Epoll.processPosted (head b) s) (Function.update l b r) ∧
        ((Epoll.processPosted (head b) s).pc = .drain (head b) ∨
          (Epoll.processPosted (head b) s).pc = .inPosted (head b)) := by
  have hempty := queueEmpty_iff (h.ring b)
  refine ⟨fun hl => ?_, fun x r hl => ?_⟩
  · simp [Epoll.processPosted, hempty.2 hl]
  · obtain ⟨links, c, w, hhead, hremove, hlinked, hxr, hq⟩ := h.take hl
    have hne : queueEmpty s.links (head b) = false := by
      rw [Bool.eq_false_iff, ne_eq, hempty, hl]
      simp
    have hgone : ∀ b', x ∉ Function.update l b r b' := by
      intro b' hx
      by_cases hb : b' = b
      · subst hb
        rw [Function.update_self] at hx
        exact hxr hx
      · rw [Function.update_of_ne hb] at hx
        exact hb (h.one b' b x hx (by simp [hl]))
    simp only [Epoll.processPosted, hne, hhead, hremove, hlinked.event, hlinked.handler,
      Bool.false_eq_true, if_false, Bool.not_true]
    split
    · exact ⟨hq.goto_drain b, .inl rfl⟩
    · rename_i hfd
      refine ⟨⟨by simp [State.goto], ?_, hq.ring, hq.one, fun b' y hy => ?_, hq.null, ?_, ?_, ?_⟩,
        .inr rfl⟩
      · rintro q (hq' | hq') <;> cases hq'
        exact ⟨b, rfl⟩
      · obtain ⟨c', w', hl'⟩ := hq.linked b' y hy
        exact ⟨c', w', hl'.event, hl'.handler, hl'.postedFor⟩
      · intro y hy
        by_cases hyx : y = x
        · subst hyx
          rw [runs_call_self]
          exact h.waiting b y (by simp [hl])
        · rw [runs_call_of_ne hyx]
          exact hq.unposted y hy
      · intro b' y hy
        rw [runs_call_of_ne (ne_of_mem_of_not_mem hy (hgone b'))]
        exact hq.waiting b' y hy
      · intro k hk hp
        rcases List.mem_cons.1 hk with rfl | hk
        · exact ⟨hfd, hlinked.postedFor.symm⟩
        · exact h.current k hk hp

theorem step {a : Act} (h : Queues s l) (hok : Unlinked s a) :
    ∃ l', Queues (step s a) l' := by
  cases a with
  | wait posting events =>
    simp only [Epoll.step]
    split
    · exact ⟨l, h.goto (by simp) (by simp)⟩
    · exact ⟨l, h⟩
  | drain q =>
    simp only [Epoll.step]
    split
    · rename_i hg
      rcases hg.2 with rfl | rfl
      · exact ⟨l, h.goto_drain true⟩
      · exact ⟨l, h.goto_drain false⟩
    · exact ⟨l, h⟩
  | next =>
    simp only [Epoll.step]
    split
    · exact ⟨l, h.goto (by simp) (by simp)⟩
    · rename_i posting e rest hpc
      refine h.processEvent fun hp hfresh => ?_
      subst hp
      simp only [Unlinked, hpc] at hok
      exact hok hfresh
    · rename_i q hpc
      obtain ⟨b, rfl⟩ := h.loop q (.inl hpc)
      obtain ⟨hnil, hcons⟩ := h.processPosted b
      cases hl : l b with
      | nil =>
        rw [hnil hl]
        exact ⟨l, h.goto (by simp) (by simp)⟩
      | cons x r => exact ⟨_, (hcons x r hl).1⟩
    · exact ⟨l, h⟩
  | op o => exact ⟨l, h.op hok⟩
  | ret =>
    simp only [Epoll.step]
    split
    · exact h.processWrite (by simp)
    · exact ⟨l, h.goto (by simp) (by simp)⟩
    · rename_i q hpc
      obtain ⟨b, rfl⟩ := h.loop q (.inr hpc)
      exact ⟨l, h.goto_drain b⟩
    · exact ⟨l, h⟩

end Queues

theorem queues_start (bit : Nat → Bool) (free : List Nat) :
    Queues (start bit free) fun _ => [] := by
  refine ⟨by simp [start], by simp [start], fun b => ?_, by simp, by simp, fun x hx _ => ?_,
    by simp [start, State.runs], by simp, by simp [start]⟩
  · cases b with
    | false => exact ring_queueInit _ _
    | true =>
      refine (ring_queueInit Cell.acceptHead ⟨fun _ => none, fun _ => none⟩).congr fun x hx => ?_
      rw [List.mem_singleton.1 hx]
      simp [start, queueInit, Links.setNext, Links.setPrev]
  · have h1 : x ≠ .acceptHead := by
      rintro rfl
      simp [Cell.event?] at hx
    have h2 : x ≠ .postedHead := by
      rintro rfl
      simp [Cell.event?] at hx
    simp [start, queueInit, Links.setNext, Links.setPrev, h1, h2]

/-! ## Draining a queue -/

/-- `event_process_posted(q)` with what its handlers do, one list of operations for each event. -/
def draining (q : Cell) (handlers : List (List Op)) : List Act :=
  .drain q :: (handlers.flatMap fun ops => .next :: (ops.map Act.op ++ [.ret])) ++ [.next]

section Drain

open Run (exec Meets)

variable {s : State} {l : Bool → List Cell} {b : Bool}

/-- While a handler of the loop runs, or none, operations leave the queues as they are. -/
theorem queues_ops {ops : List Op} (h : Queues s l)
    (hmeets : Meets step Unlinked s (ops.map Act.op)) :
    Queues (exec step s (ops.map Act.op)) l ∧ (exec step s (ops.map Act.op)).pc = s.pc := by
  induction ops using List.reverseRecOn with
  | nil => exact ⟨h, rfl⟩
  | append_singleton ops o ih =>
    rw [List.map_append, List.map_singleton] at hmeets ⊢
    obtain ⟨hq, hpc⟩ := ih (hmeets.pre step)
    rw [Run.exec_concat]
    refine ⟨hq.op (hmeets.last step), ?_⟩
    simp only [step]
    split
    · rw [(run_pc_calls o _).1, hpc]
    · exact hpc

/-- One iteration takes the first event, and comes back to the head of the loop. -/
theorem queues_iteration {ops : List Op} {x : Cell} {r : List Cell} (h : Queues s l)
    (hpc : s.pc = .drain (head b)) (hl : l b = x :: r)
    (hmeets : Meets step Unlinked s (Act.next :: (ops.map Act.op ++ [Act.ret]))) :
    Queues (exec step s (Act.next :: (ops.map Act.op ++ [Act.ret]))) (Function.update l b r) ∧
      (exec step s (Act.next :: (ops.map Act.op ++ [Act.ret]))).pc = .drain (head b) := by
  obtain ⟨hq, hgo⟩ := (h.processPosted b).2 x r hl
  have hnext : step s .next = processPosted (head b) s := by simp [step, hpc]
  have hrest : Meets step Unlinked (step s .next) (ops.map Act.op ++ [.ret]) :=
    fun pre a post hp => hmeets (.next :: pre) a post (by simp [hp])
  rw [show exec step s (Act.next :: (ops.map Act.op ++ [Act.ret])) =
    exec step (step s .next) (ops.map Act.op ++ [.ret]) from rfl, Run.exec_concat]
  rw [hnext] at hrest ⊢
  obtain ⟨hops, hsame⟩ := queues_ops hq (hrest.pre step)
  rcases hgo with hgo | hgo
  · rw [hgo] at hsame
    simp only [step, hsame]
    exact ⟨hops, trivial⟩
  · rw [hgo] at hsame
    simp only [step, hsame]
    exact ⟨hops.goto_drain b, rfl⟩

theorem queues_iterations {handlers : List (List Op)} (h : Queues s l)
    (hpc : s.pc = .drain (head b)) (hlen : handlers.length = (l b).length)
    (hmeets : Meets step Unlinked s
      (handlers.flatMap fun ops => Act.next :: (ops.map Act.op ++ [Act.ret]))) :
    Queues (exec step s (handlers.flatMap fun ops => Act.next :: (ops.map Act.op ++ [Act.ret])))
        (Function.update l b []) ∧
      (exec step s (handlers.flatMap fun ops => Act.next :: (ops.map Act.op ++ [Act.ret]))).pc =
        .drain (head b) := by
  induction handlers generalizing s l with
  | nil =>
    have hnil : l b = [] := List.length_eq_zero_iff.1 hlen.symm
    rw [← hnil, Function.update_eq_self]
    exact ⟨h, hpc⟩
  | cons ops handlers ih =>
    cases hl : l b with
    | nil => simp [hl] at hlen
    | cons x r =>
      rw [List.flatMap_cons] at hmeets ⊢
      obtain ⟨hq, hpc'⟩ := queues_iteration h hpc hl (hmeets.pre step)
      rw [Run.exec_append]
      have hrest := ih hq hpc' (by simpa [hl] using hlen)
        fun pre a post hp => by
          rw [← Run.exec_append]
          exact hmeets _ a post (by rw [hp, List.append_assoc])
      rwa [Function.update_idem] at hrest

/-- With one handler run for each event that is linked at the start, the call returns. -/
def Returns (s : State) (q : Cell) (n : Nat) : Prop :=
  s.pc = .idle → ∀ handlers : List (List Op), handlers.length = n →
    Meets step Unlinked s (draining q handlers) →
    (exec step s (draining q handlers)).pc = .idle

theorem queues_returns (h : Queues s l) (b : Bool) : Returns s (head b) (l b).length := by
  intro hidle handlers hlen hmeets
  have hstart : step s (.drain (head b)) = s.goto (.drain (head b)) := by
    cases b <;> simp [step, hidle, head]
  have hmid : Meets step Unlinked (s.goto (.drain (head b)))
      (handlers.flatMap fun ops => Act.next :: (ops.map Act.op ++ [Act.ret])) := by
    intro pre a post hp
    rw [← hstart]
    exact hmeets (.drain (head b) :: pre) a (post ++ [.next]) (by simp [draining, hp])
  obtain ⟨hq, hpc⟩ := queues_iterations (h.goto_drain b) rfl hlen hmid
  rw [draining, Run.exec_concat,
    show exec step s (.drain (head b) :: handlers.flatMap _) =
      exec step (step s (.drain (head b))) (handlers.flatMap _) from rfl, hstart]
  simp only [step, hpc]
  rw [(hq.processPosted b).1 (Function.update_self ..)]
  rfl

end Drain

/-! ## Every run -/

/-- The two queues are rings of events, no event is in them twice, draining them ends, and posted
events are handled at most as often as they were posted, for the incarnation of the posting. -/
structure WellPosted (s : State) (accept posted : List Cell) : Prop where
  running : s.pc ≠ .crashed
  acceptRing : LinkedRing s.links .acceptHead accept
  postedRing : LinkedRing s.links .postedHead posted
  once : (accept ++ posted).Nodup
  acceptReturns : Returns s .acceptHead accept.length
  postedReturns : Returns s .postedHead posted.length
  runs : ∀ x, s.runs x + (accept ++ posted).count x ≤ s.posts x
  current : ∀ k ∈ s.calls, k.posted → k.Current

theorem Queues.wellPosted {s : State} {l : Bool → List Cell} (h : Queues s l) :
    WellPosted s (l true) (l false) := by
  have honce : (l true ++ l false).Nodup := by
    rw [List.nodup_append']
    refine ⟨(h.ring true).nodup_tail, (h.ring false).nodup_tail, fun x h1 h2 => ?_⟩
    exact absurd (h.one _ _ x h1 h2) (by simp)
  refine ⟨h.running, h.ring true, h.ring false, honce, queues_returns h true, queues_returns h false,
    fun x => ?_, h.current⟩
  by_cases hx : x ∈ l true ++ l false
  · rw [List.count_eq_one_of_mem honce hx]
    rcases List.mem_append.1 hx with hx | hx
    · exact h.waiting true x hx
    · exact h.waiting false x hx
  · rw [List.count_eq_zero_of_not_mem hx]
    refine h.unposted x fun b hb => hx ?_
    cases b with
    | true => exact List.mem_append_left _ hb
    | false => exact List.mem_append_right _ hb

/-- In every run in which no event is posted while it is linked, and no connection is re-initialised
while one of its events is linked, the queues of posted events are as they should be. -/
theorem posted_events (bit : Nat → Bool) (free : List Nat) (acts : List Act)
    (hmeets : Run.Meets step Unlinked (start bit free) acts) :
    ∃ accept posted, WellPosted (Run.exec step (start bit free) acts) accept posted := by
  obtain ⟨l, h⟩ := Run.invariant (I := fun s => ∃ l, Queues s l) step
    ⟨_, queues_start bit free⟩ (fun _ _ ⟨_, h⟩ hok => h.step hok) hmeets
  exact ⟨_, _, h.wellPosted⟩

/-- Both connections are reported and posted. -/
def bothPosted : List Act :=
  opened 1 5 ++ opened 2 6 ++
    [.wait true [{ of := ⟨2, false, 1⟩, epollin := true },
      { of := ⟨1, false, 1⟩, epollin := true }], .next, .next, .next]

/-- The handlers of both close their own connection. -/
theorem posted_events_drained :
    ∃ accept posted, WellPosted (Run.exec step (start (fun _ => true) [1, 2])
      (bothPosted ++ [.drain .postedHead, .next] ++ closed 2 ++ [.ret, .next] ++ closed 1 ++
        [.ret, .next])) accept posted := by
  refine posted_events _ _ _ (Run.meets_of_check _ ?_)
  decide +kernel

/-- The handler of 2 closes connection 1 and reuses it while the event of 1 is linked: the loop
comes to an event whose links are null. -/
theorem reused_while_linked :
    ¬ ∀ (bit : Nat → Bool) (free : List Nat) (acts : List Act),
      ∃ accept posted, WellPosted (Run.exec step (start bit free) acts) accept posted := by
  intro h
  obtain ⟨accept, posted, hw⟩ := h (fun _ => true) [1, 2]
    (bothPosted ++ [Act.drain .postedHead, Act.next] ++ closed 1 ++ opened 1 5 ++
      [Act.ret, Act.next])
  refine hw.running ?_
  decide +kernel

end Epoll
end Shs
