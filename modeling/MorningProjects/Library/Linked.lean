import Mathlib.Logic.Function.Basic
import Mathlib.Tactic

/-!
# Doubly linked lists in a heap

Reading or writing through NULL or through a freed node has no result. `Segment`
says that a list of addresses is linked in both directions; the lemmas relink
the two nodes around a place where a node enters or leaves.
-/
namespace MorningProjects.Library

structure LinkNode (α β : Type*) where
  prev : Option α
  next : Option α
  data : β
  deriving DecidableEq, Repr

abbrev LinkHeap (α β : Type*) := α → Option (LinkNode α β)

variable {α β : Type*}

section Access

variable (h : LinkHeap α β)

def readPrev (p : Option α) : Option (Option α) := (p.bind h).map LinkNode.prev

def readNext (p : Option α) : Option (Option α) := (p.bind h).map LinkNode.next

def readData (p : Option α) : Option β := (p.bind h).map LinkNode.data

section Reads

variable {h} {a : α} {n : LinkNode α β}

theorem readPrev_eq (ha : h a = some n) : readPrev h (some a) = some n.prev := by
  simp [readPrev, ha]

theorem readNext_eq (ha : h a = some n) : readNext h (some a) = some n.next := by
  simp [readNext, ha]

theorem readData_eq (ha : h a = some n) : readData h (some a) = some n.data := by
  simp [readData, ha]

theorem readData_congr {h' : LinkHeap α β} (heq : h' a = h a) :
    readData h' (some a) = readData h (some a) := by
  rw [readData, readData, Option.bind_some, Option.bind_some, heq]

end Reads

variable [DecidableEq α]

def setPrev (p v : Option α) : LinkHeap α β :=
  fun b => if p = some b then (h b).map fun n => { n with prev := v } else h b

def setNext (p v : Option α) : LinkHeap α β :=
  fun b => if p = some b then (h b).map fun n => { n with next := v } else h b

def writePrev (p v : Option α) : Option (LinkHeap α β) :=
  (p.bind h).map fun _ => setPrev h p v

def writeNext (p v : Option α) : Option (LinkHeap α β) :=
  (p.bind h).map fun _ => setNext h p v

def release (p : Option α) : Option (LinkHeap α β) :=
  (p.bind h).map fun _ => fun b => if p = some b then none else h b

variable {h} {a : α} {p v : Option α}

theorem writePrev_eq (ha : (h a).isSome) :
    writePrev h (some a) v = some (setPrev h (some a) v) := by
  obtain ⟨n, hn⟩ := Option.isSome_iff_exists.mp ha
  simp [writePrev, hn]

theorem writeNext_eq (ha : (h a).isSome) :
    writeNext h (some a) v = some (setNext h (some a) v) := by
  obtain ⟨n, hn⟩ := Option.isSome_iff_exists.mp ha
  simp [writeNext, hn]

theorem release_eq (ha : (h a).isSome) :
    release h (some a) = some (Function.update h a none) := by
  obtain ⟨n, hn⟩ := Option.isSome_iff_exists.mp ha
  simp only [release, Option.bind_some, hn, Option.map_some, Option.some.injEq]
  funext b
  by_cases hb : a = b
  · simp [hb]
  · simp [hb, Function.update_of_ne (Ne.symm hb)]

@[simp] theorem isSome_setPrev (b : α) : (setPrev h p v b).isSome = (h b).isSome := by
  rw [setPrev]
  split_ifs <;> simp

@[simp] theorem isSome_setNext (b : α) : (setNext h p v b).isSome = (h b).isSome := by
  rw [setNext]
  split_ifs <;> simp

@[simp] theorem data_setPrev (b : α) :
    (setPrev h p v b).map LinkNode.data = (h b).map LinkNode.data := by
  rw [setPrev]
  split_ifs <;> simp [Function.comp_def]

@[simp] theorem data_setNext (b : α) :
    (setNext h p v b).map LinkNode.data = (h b).map LinkNode.data := by
  rw [setNext]
  split_ifs <;> simp [Function.comp_def]

@[simp] theorem setPrev_none : setPrev h none v = h := by
  funext b
  simp [setPrev]

@[simp] theorem setNext_none : setNext h none v = h := by
  funext b
  simp [setNext]

theorem setPrev_of_ne {b : α} (hb : p ≠ some b) : setPrev h p v b = h b := by
  simp [setPrev, hb]

theorem setNext_of_ne {b : α} (hb : p ≠ some b) : setNext h p v b = h b := by
  simp [setNext, hb]

end Access

/-- The addresses are linked in both directions, starting after `p` and ending before `q`. -/
def Segment (h : LinkHeap α β) : Option α → List α → Option α → Prop
  | _, [], _ => True
  | p, a :: as, q => (∃ d, h a = some ⟨p, as.head?.or q, d⟩) ∧ Segment h (some a) as q

/-- The addresses are linked by `next` and the last link is `q`. -/
def NextChain (h : LinkHeap α β) : List α → Option α → Prop
  | [], _ => True
  | a :: as, q => (∃ p d, h a = some ⟨p, as.head?.or q, d⟩) ∧ NextChain h as q

section Segment

variable {h h' : LinkHeap α β} {p q : Option α} {a : α} {as bs : List α}

theorem Segment.congr (hs : Segment h p as q) (heq : ∀ a ∈ as, h' a = h a) :
    Segment h' p as q := by
  induction as generalizing p with
  | nil => trivial
  | cons a as ih =>
    obtain ⟨⟨d, hd⟩, hs⟩ := hs
    constructor
    · exact ⟨d, by rw [heq a List.mem_cons_self, hd]⟩
    · exact ih hs fun b hb => heq b (List.mem_cons_of_mem a hb)

theorem NextChain.congr (hs : NextChain h as q) (heq : ∀ a ∈ as, h' a = h a) :
    NextChain h' as q := by
  induction as with
  | nil => trivial
  | cons a as ih =>
    obtain ⟨⟨p, d, hd⟩, hs⟩ := hs
    constructor
    · exact ⟨p, d, by rw [heq a List.mem_cons_self, hd]⟩
    · exact ih hs fun b hb => heq b (List.mem_cons_of_mem a hb)

theorem Segment.nextChain (hs : Segment h p as q) : NextChain h as q := by
  induction as generalizing p with
  | nil => trivial
  | cons a as ih =>
    obtain ⟨⟨d, hd⟩, hs⟩ := hs
    exact ⟨⟨p, d, hd⟩, ih hs⟩

/-- The nodes of a list that ends are determined by the first of them. -/
theorem NextChain.unique (has : NextChain h as none) (hbs : NextChain h bs none)
    (hhead : as.head? = bs.head?) : as = bs := by
  induction as generalizing bs with
  | nil => exact (List.head?_eq_none_iff.mp hhead.symm).symm
  | cons a as ih =>
    cases bs with
    | nil => cases hhead
    | cons b bs =>
      obtain rfl : a = b := Option.some.inj hhead
      obtain ⟨⟨p, d, ha⟩, has⟩ := has
      obtain ⟨⟨p', d', hb⟩, hbs⟩ := hbs
      rw [ha] at hb
      have hnext := congrArg LinkNode.next (Option.some.inj hb)
      rw [Option.or_none, Option.or_none] at hnext
      rw [ih has hbs hnext]

theorem NextChain.isSome (hs : NextChain h as q) (ha : a ∈ as) : (h a).isSome := by
  induction as with
  | nil => cases ha
  | cons b as ih =>
    obtain ⟨⟨p, d, hd⟩, hs⟩ := hs
    rcases List.mem_cons.mp ha with rfl | ha
    · simp [hd]
    · exact ih hs ha

theorem segment_append :
    Segment h p (as ++ bs) q ↔
      Segment h p as (bs.head?.or q) ∧ Segment h (as.getLast?.or p) bs q := by
  induction as generalizing p with
  | nil => simp [Segment]
  | cons a as ih =>
    rw [List.cons_append, Segment, Segment, ih, and_assoc]
    have hhead : (as ++ bs).head?.or q = as.head?.or (bs.head?.or q) := by
      cases as <;> simp
    have hlast : as.getLast?.or (some a) = (a :: as).getLast?.or p := by
      cases as with
      | nil => rfl
      | cons b as => simp [List.getLast?_cons]
    rw [hhead, hlast]

theorem Segment.node (hs : Segment h p (as ++ a :: bs) q) :
    ∃ d, h a = some ⟨as.getLast?.or p, bs.head?.or q, d⟩ :=
  (segment_append.mp hs).2.1

section Relink

variable [DecidableEq α]

/-- The heap differs only in the `next` link of the last address. -/
def NextLast (h h' : LinkHeap α β) (as : List α) (q : Option α) : Prop :=
  ∀ b ∈ as, h' b = if as.getLast? = some b then (h b).map fun n => { n with next := q } else h b

def PrevFirst (h h' : LinkHeap α β) (as : List α) (p : Option α) : Prop :=
  ∀ b ∈ as, h' b = if as.head? = some b then (h b).map fun n => { n with prev := p } else h b

theorem NextLast.readData (hlast : NextLast h h' as q) (ha : a ∈ as) :
    readData h' (some a) = readData h (some a) := by
  rw [Library.readData, Library.readData, Option.bind_some, Option.bind_some, hlast a ha]
  split_ifs
  · rw [Option.map_map]
    rfl
  · rfl

theorem Segment.nextLast {q' : Option α} (hs : Segment h p as q') (hnodup : as.Nodup)
    (hlast : NextLast h h' as q) : Segment h' p as q := by
  induction as generalizing p with
  | nil => trivial
  | cons a as ih =>
    obtain ⟨⟨d, hd⟩, hs⟩ := hs
    have ha := hlast a List.mem_cons_self
    cases as with
    | nil =>
      constructor
      · exact ⟨d, by simpa [hd] using ha⟩
      · trivial
    | cons b as =>
      have hne : (a :: b :: as).getLast? ≠ some a := by
        intro heq
        rw [List.getLast?_cons_cons] at heq
        exact (List.nodup_cons.mp hnodup).1 (List.mem_of_getLast? heq)
      constructor
      · exact ⟨d, by rw [ha, if_neg hne, hd]; rfl⟩
      · apply ih hs (List.nodup_cons.mp hnodup).2
        intro c hc
        have := hlast c (List.mem_cons_of_mem a hc)
        rwa [List.getLast?_cons_cons] at this

theorem Segment.prevFirst {p' : Option α} (hs : Segment h p' as q) (hnodup : as.Nodup)
    (hfirst : PrevFirst h h' as p) : Segment h' p as q := by
  cases as with
  | nil => trivial
  | cons a as =>
    obtain ⟨⟨d, hd⟩, hs⟩ := hs
    constructor
    · exact ⟨d, by simpa [hd] using hfirst a List.mem_cons_self⟩
    · apply hs.congr
      intro b hb
      have hne : a ≠ b := by
        rintro rfl
        exact (List.nodup_cons.mp hnodup).1 hb
      simpa [hne] using hfirst b (List.mem_cons_of_mem a hb)

theorem Segment.link (hs : Segment h p (as ++ bs) q) (hnodup : (as ++ bs).Nodup)
    (ha : ∃ d, h' a = some ⟨as.getLast?.or p, bs.head?.or q, d⟩)
    (hlast : NextLast h h' as (some a)) (hfirst : PrevFirst h h' bs (some a)) :
    Segment h' p (as ++ a :: bs) q := by
  obtain ⟨has, hbs, -⟩ := List.nodup_append.mp hnodup
  obtain ⟨hleft, hright⟩ := segment_append.mp hs
  rw [segment_append]
  exact ⟨hleft.nextLast has hlast, ha, hright.prevFirst hbs hfirst⟩

theorem Segment.unlink (hs : Segment h p (as ++ a :: bs) q) (hnodup : (as ++ a :: bs).Nodup)
    (hlast : NextLast h h' as (bs.head?.or q)) (hfirst : PrevFirst h h' bs (as.getLast?.or p)) :
    Segment h' p (as ++ bs) q := by
  obtain ⟨has, hbs, -⟩ := List.nodup_append.mp hnodup
  obtain ⟨hleft, -, hright⟩ := segment_append.mp hs
  rw [segment_append]
  exact ⟨hleft.nextLast has hlast, hright.prevFirst (List.nodup_cons.mp hbs).2 hfirst⟩

end Relink

end Segment

end MorningProjects.Library
