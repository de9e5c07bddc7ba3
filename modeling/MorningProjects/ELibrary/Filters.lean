import MorningProjects.ELibrary.Grammar

/-!
# Reading back the filter of a user request

All filter constants have the bits of `ELIBRARY_FILTER` in common, and
`eLibrary_DB_findUsersByFilter` tests a constant with `&` only: any filter built
on the base passes its first test, the one for a name.
-/
namespace MorningProjects.ELibrary
open Library

/-- The branches of `eLibrary_DB_findUsersByFilter`. -/
inductive UserSelection where
  | byName
  | self
  | friends
  | neither
  deriving DecidableEq, Repr

def findUsersByFilter (filterId : UInt32) : UserSelection :=
  if filterByUserName &&& filterId ≠ 0 then .byName
  else if filterByUserSelf &&& filterId ≠ 0 then .self
  else if filterByUserFriendly &&& filterId ≠ 0 then .friends
  else .neither

/-- The filter is composed with this constant; `FILTER_INVALID` is composed with none. -/
def Composed (filterId constant : UInt32) : Prop :=
  filterId ≠ filterInvalid ∧ filterId &&& constant = constant

instance (filterId constant : UInt32) : Decidable (Composed filterId constant) :=
  inferInstanceAs (Decidable (filterId ≠ filterInvalid ∧ filterId &&& constant = constant))

def ReadBack (filterId : UInt32) : Prop :=
  (findUsersByFilter filterId = .byName ↔ Composed filterId filterByUserName) ∧
  (findUsersByFilter filterId = .self ↔
    Composed filterId filterByUserSelf ∧ ¬ Composed filterId filterByUserName) ∧
  (findUsersByFilter filterId = .friends ↔ Composed filterId filterByUserFriendly ∧
    ¬ Composed filterId filterByUserName ∧ ¬ Composed filterId filterByUserSelf)

instance (filterId : UInt32) : Decidable (ReadBack filterId) :=
  inferInstanceAs (Decidable (_ ∧ _ ∧ _))

/-- A filter with any bit of the base is taken for a name. -/
theorem findUsersByFilter_of_base {filterId : UInt32} (h : elibraryFilter &&& filterId ≠ 0) :
    findUsersByFilter filterId = .byName := by
  have hname :
      elibraryFilter &&& (filterByUserName &&& filterId) = elibraryFilter &&& filterId := by
    rw [← UInt32.and_assoc]
    rfl
  rw [findUsersByFilter, if_pos]
  intro h0
  rw [h0] at hname
  exact h hname.symm

/-- Built on the base, only a filter for a name is read back. -/
theorem readBack_of_base {filterId : UInt32} (h : elibraryFilter &&& filterId ≠ 0) :
    ReadBack filterId ↔ Composed filterId filterByUserName := by
  rw [ReadBack, findUsersByFilter_of_base h]
  constructor
  · intro hread
    exact hread.1.mp rfl
  · intro hname
    simp [hname]

def userTypes : List RetrievalType := [.browseUsers, .addFriend, .rmFriend]

/-- The accepted user and friend commands build their filters on the base, and those with a
parameter, except `add`, compose it for a name. -/
theorem composed_sample :
    (∀ p ∈ Command.shapes, ∀ x ∈ p.2, ∀ b ∈ (Command.sample p.1 x).dispatch.2,
      b.retrievalTypeId ∈ userTypes →
        elibraryFilter &&& (Command.sample p.1 x).filterId.getD filterInvalid ≠ 0 ∧
        (Composed ((Command.sample p.1 x).filterId.getD filterInvalid) filterByUserName ↔
          x.2 ≠ 0 ∧ p.1 ≠ add)) ∧
    ∀ w ∈ Command.bareWords, ∀ b ∈ (Command.sample w ([], 0)).dispatch.2,
      b.retrievalTypeId ∉ userTypes := by
  decide +kernel

/-- The server reads the filter of a user or friend request back exactly if the command has a
parameter and is not `add`. -/
theorem findUsersByFilter_readBack (c : Command) (r r' : ClientRequest)
    (hcall : createRequest (some c) r = some (.ok, r')) {b : Branch} (hb : c.dispatch.2 = some b)
    (htype : b.retrievalTypeId ∈ userTypes) :
    ReadBack r'.filterId ↔ c.numParams ≠ 0 ∧ c.cmd ≠ add := by
  have h : c.dispatch = (c.dispatch.1, some b) := by rw [← hb]
  have hf := filterId_of_createRequest h hcall
  rcases Command.dispatch_shape h with ⟨l, hl, hx⟩ | ⟨hw, hn⟩
  · rw [Command.dispatch_sample] at hb
    rw [Command.filterId_sample] at hf
    obtain ⟨hbase, hname⟩ := composed_sample.1 _ hl _ hx b hb htype
    rw [hf, Option.getD_some] at hbase hname
    exact (readBack_of_base hbase).trans hname
  · rw [Command.dispatch_bare hw hn] at hb
    exact absurd htype (composed_sample.2 _ hw b hb)

theorem findUsersByFilter_readBack_example :
    ∃ r', createRequest (some ⟨search, word ['f'], [title]⟩) .zeroed = some (.ok, r') ∧
      ReadBack r'.filterId := by
  refine ⟨_, rfl, (findUsersByFilter_readBack ⟨search, word ['f'], [title]⟩ .zeroed _ rfl rfl
    (by decide)).mpr ?_⟩
  decide

/-- `view -f` asks for the user's own friends, and is answered by name; so is `add -f Dune`,
whose filter is `FILTER_INVALID`. -/
theorem findUsersByFilter_not_readBack :
    (∃ r', createRequest (some ⟨view, word ['f'], []⟩) .zeroed = some (.ok, r') ∧
      r'.filterId = filterByUserSelf ∧ findUsersByFilter r'.filterId = .byName ∧
      ¬ ReadBack r'.filterId) ∧
    ∃ r', createRequest (some ⟨add, word ['f'], [title]⟩) .zeroed = some (.ok, r') ∧
      r'.filterId = filterInvalid ∧ ¬ ReadBack r'.filterId := by
  refine ⟨⟨_, rfl, ?_⟩, ⟨_, rfl, ?_⟩⟩
  · decide
  · decide

end MorningProjects.ELibrary
