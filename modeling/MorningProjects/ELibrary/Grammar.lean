import MorningProjects.ELibrary.Request

/-!
# What a request tells about its command

The command forms that `eLibrary_CLT_createRequest` accepts, the command grammar
of `eLibrary_sharedTypes.h`, and when a request carries what the grammar and the
parameters of its command say.
-/
namespace MorningProjects.ELibrary
open Library

/-! ### The accepted forms -/

namespace Command

/-- The option letters and the number of parameters. -/
def shape (c : Command) : List UInt8 × ℕ := (c.option, c.numParams)

def viewShapes : List (List UInt8 × ℕ) :=
  [(word ['b'], 0), (word ['b'], 1), (word ['f'], 0), (word ['f'], 1), (word ['b', 'c'], 0),
    (word ['b', 't'], 1), (word ['b', 'u'], 0), (word ['f', 'b'], 1), (word ['f', 'f'], 1)]

def addShapes : List (List UInt8 × ℕ) :=
  [(word ['b'], 1), (word ['d'], 2), (word ['t'], 2), (word ['c'], 2), (word ['f'], 1)]

def rmShapes : List (List UInt8 × ℕ) := [(word ['b'], 1), (word ['t'], 2), (word ['f'], 1)]

def whatsupShapes : List (List UInt8 × ℕ) := [(word ['f'], 1)]

def wowShapes : List (List UInt8 × ℕ) := [([], 1), (word ['f'], 1)]

def msgShapes : List (List UInt8 × ℕ) := [(word ['f'], 1), ([], 2)]

/-- The accepted shapes of every word, apart from the words of `bareWords` alone. -/
def shapes : List (CString × List (List UInt8 × ℕ)) :=
  [(view, viewShapes), (add, addShapes), (rm, rmShapes), (search, rmShapes),
    (whatsup, whatsupShapes), (wow, wowShapes), (buy, wowShapes), (msg, msgShapes)]

/-- The words that are accepted without parameters, whatever the options. -/
def bareWords : List CString := [whatsup, wow, buy, msg]

variable {c : Command} {b : Branch}

theorem shape_mem {o : List UInt8} {n : ℕ} {l : List (List UInt8 × ℕ)} (ho : c.option = o)
    (hn : c.numParams = n) (h : (o, n) ∈ l) : c.shape ∈ l := by
  rw [shape, ho, hn]
  exact h

theorem option_one {x : Char} (hn : c.numOptions = 1) (h0 : c.IsOption 0 x) :
    c.option = word [x] := by
  obtain ⟨a, ha⟩ := List.length_eq_one_iff.mp hn
  rw [IsOption, ha] at h0
  rw [ha]
  exact congrArg (fun a => [a]) (Option.some.inj h0)

theorem option_two {x y : Char} (hn : c.numOptions = 2) (h0 : c.IsOption 0 x)
    (h1 : c.IsOption 1 y) : c.option = word [x, y] := by
  obtain ⟨a, a', ha⟩ := List.length_eq_two.mp hn
  rw [IsOption, ha] at h0 h1
  rw [ha, show a = x.toUInt8 from Option.some.inj h0, show a' = y.toUInt8 from Option.some.inj h1]
  rfl

theorem viewBranch_shape (h : c.viewBranch = some b) : c.shape ∈ viewShapes := by
  rw [viewBranch] at h
  split_ifs at h with h₁ h₂ h₃ h₄ h₅ h₆ h₇ h₈ h₉ h₁₀ h₁₁
  · exact shape_mem (option_one h₁.1 h₁.2.1) h₁.2.2 (by decide)
  · exact shape_mem (option_one h₂.1 h₂.2.1) h₂.2.2 (by decide)
  · exact shape_mem (option_one h₃.1 h₃.2.1) h₃.2.2 (by decide)
  · exact shape_mem (option_one h₄.1 h₄.2.1) h₄.2.2 (by decide)
  · exact shape_mem (option_two h₅.1 h₅.2 h₆.1) h₆.2 (by decide)
  · exact shape_mem (option_two h₅.1 h₅.2 h₇.1) h₇.2 (by decide)
  · exact shape_mem (option_two h₅.1 h₅.2 h₈.1) h₈.2 (by decide)
  · exact shape_mem (option_two h₉.1 h₉.2 h₁₀.1) h₁₀.2 (by decide)
  · exact shape_mem (option_two h₉.1 h₉.2 h₁₁.1) h₁₁.2 (by decide)

theorem addBranch_shape (h : c.addBranch = some b) : c.shape ∈ addShapes := by
  rw [addBranch] at h
  split_ifs at h with h₁ h₂ h₃ h₄ h₅
  · exact shape_mem (option_one h₁.1 h₁.2.1) h₁.2.2 (by decide)
  · exact shape_mem (option_one h₂.1 h₂.2.1) h₂.2.2 (by decide)
  · exact shape_mem (option_one h₃.1 h₃.2.1) h₃.2.2 (by decide)
  · exact shape_mem (option_one h₄.1 h₄.2.1) h₄.2.2 (by decide)
  · exact shape_mem (option_one h₅.1 h₅.2.1) h₅.2.2 (by decide)

theorem rmBranch_shape (hn : c.numOptions = 1) (h : c.rmBranch = some b) :
    c.shape ∈ rmShapes := by
  rw [rmBranch] at h
  split_ifs at h with h₁ h₂ h₃
  · exact shape_mem (option_one hn h₁.1) h₁.2 (by decide)
  · exact shape_mem (option_one hn h₂.1) h₂.2 (by decide)
  · exact shape_mem (option_one hn h₃.1) h₃.2 (by decide)

theorem searchBranch_shape (hn : c.numOptions = 1) (h : c.searchBranch = some b) :
    c.shape ∈ rmShapes := by
  rw [searchBranch] at h
  split_ifs at h with h₁ h₂ h₃
  · exact shape_mem (option_one hn h₁.1) h₁.2 (by decide)
  · exact shape_mem (option_one hn h₂.1) h₂.2 (by decide)
  · exact shape_mem (option_one hn h₃.1) h₃.2 (by decide)

theorem whatsupBranch_shape (h : c.whatsupBranch = some b) :
    c.numParams = 0 ∨ c.shape ∈ whatsupShapes := by
  rw [whatsupBranch] at h
  split_ifs at h with h₁ h₂ h₃
  · exact .inl h₁.1
  · exact .inl h₂.2.2
  · exact .inr (shape_mem (option_one h₃.1 h₃.2.1) h₃.2.2 (by decide))

theorem wowBuyBranch_shape {filter : UInt32} {type : RetrievalType}
    (h : c.wowBuyBranch filter type = some b) : c.numParams = 0 ∨ c.shape ∈ wowShapes := by
  rw [wowBuyBranch] at h
  split_ifs at h with h₁ h₂ h₃
  · exact .inl h₁.1
  · exact .inr (shape_mem (List.length_eq_zero_iff.mp h₂.1) h₂.2 (by decide))
  · exact .inr (shape_mem (option_one h₃.1 h₃.2.1) h₃.2.2 (by decide))

theorem msgBranch_shape (h : c.msgBranch = some b) :
    c.numParams = 0 ∨ c.shape ∈ msgShapes := by
  rw [msgBranch] at h
  split_ifs at h with h₁ h₂ h₃
  · exact .inl h₁.1
  · exact .inr (shape_mem (option_one h₂.1 h₂.2.1) h₂.2.2 (by decide))
  · exact .inr (shape_mem (List.length_eq_zero_iff.mp h₃.1) h₃.2 (by decide))

theorem dispatch_shape {a : Assignment} (h : c.dispatch = (a, some b)) :
    (∃ l, (c.cmd, l) ∈ shapes ∧ c.shape ∈ l) ∨ c.cmd ∈ bareWords ∧ c.numParams = 0 := by
  rw [dispatch] at h
  simp only [CString.strcmp_eq_zero] at h
  split_ifs at h with h₁ h₂ h₃ h₄ h₅ h₆ h₇ h₈
  · obtain ⟨-, hb⟩ := Prod.mk.inj h
    exact .inl ⟨viewShapes, by rw [h₁]; decide, viewBranch_shape hb⟩
  · obtain ⟨-, hb⟩ := Prod.mk.inj h
    exact .inl ⟨addShapes, by rw [h₂.1]; decide, addBranch_shape hb⟩
  · obtain ⟨-, hb⟩ := Prod.mk.inj h
    exact .inl ⟨rmShapes, by rw [h₃.1]; decide, rmBranch_shape h₃.2 hb⟩
  · obtain ⟨-, hb⟩ := Prod.mk.inj h
    exact .inl ⟨rmShapes, by rw [h₄.1]; decide, searchBranch_shape h₄.2 hb⟩
  · obtain ⟨-, hb⟩ := Prod.mk.inj h
    rcases whatsupBranch_shape hb with hzero | hshape
    · exact .inr ⟨by rw [h₅]; decide, hzero⟩
    · exact .inl ⟨whatsupShapes, by rw [h₅]; decide, hshape⟩
  · obtain ⟨-, hb⟩ := Prod.mk.inj h
    rcases wowBuyBranch_shape hb with hzero | hshape
    · exact .inr ⟨by rw [h₆]; decide, hzero⟩
    · exact .inl ⟨wowShapes, by rw [h₆]; decide, hshape⟩
  · obtain ⟨-, hb⟩ := Prod.mk.inj h
    rcases wowBuyBranch_shape hb with hzero | hshape
    · exact .inr ⟨by rw [h₇]; decide, hzero⟩
    · exact .inl ⟨wowShapes, by rw [h₇]; decide, hshape⟩
  · obtain ⟨-, hb⟩ := Prod.mk.inj h
    rcases msgBranch_shape hb with hzero | hshape
    · exact .inr ⟨by rw [h₈]; decide, hzero⟩
    · exact .inl ⟨msgShapes, by rw [h₈]; decide, hshape⟩
  · cases h

def sample (cmd : CString) (x : List UInt8 × ℕ) : Command :=
  ⟨cmd, x.1, List.replicate x.2 CString.empty⟩

/-- Only the word and the shape decide which branch is taken. -/
theorem dispatch_sample (c : Command) : c.dispatch = (sample c.cmd c.shape).dispatch := by
  have hnum : (sample c.cmd c.shape).numParams = c.numParams := List.length_replicate
  simp only [dispatch, viewBranch, addBranch, rmBranch, searchBranch, whatsupBranch, wowBranch,
    buyBranch, wowBuyBranch, msgBranch, numOptions, IsOption, hnum]
  rfl

/-- Without parameters the options of a bare word are not looked at. -/
theorem dispatch_bare (hw : c.cmd ∈ bareWords) (hn : c.numParams = 0) :
    c.dispatch = (sample c.cmd ([], 0)).dispatch := by
  have hbare : ∀ c : Command, c.numParams = 0 → c.cmd ∈ bareWords → c.dispatch =
      if c.cmd = whatsup then (⟨none, some sortByTime⟩, some ⟨.browseActivities,
        ⟨some (filterByUserSelf ||| filterByUserFriendly), none⟩, 0⟩)
      else if c.cmd = wow then (⟨none, none⟩, some ⟨.browseBooks,
        ⟨some (filterByUserSelf ||| filterByWowed), some sortByTime⟩, 0⟩)
      else if c.cmd = buy then (⟨none, none⟩, some ⟨.browseBooks,
        ⟨some (filterByUserSelf ||| filterByBuyed), some sortByTime⟩, 0⟩)
      else (⟨none, none⟩, some ⟨.browseMsgs, ⟨some filterInvalid, some sortByTime⟩, 0⟩) := by
    intro c hn hw
    simp only [bareWords, List.mem_cons, List.not_mem_nil, or_false] at hw
    rcases hw with hw | hw | hw | hw <;>
      simp +decide [dispatch, hw, hn, whatsupBranch, wowBranch, buyBranch, wowBuyBranch, msgBranch]
  rw [hbare c hn hw, hbare (sample c.cmd ([], 0)) rfl hw]
  rfl

/-- The filter that the branch taken assigns, or else what was assigned before. -/
def filterId (c : Command) : Option UInt32 :=
  c.dispatch.2.bind fun b => b.assigned.filterId.or c.dispatch.1.filterId

theorem filterId_sample (c : Command) : c.filterId = (sample c.cmd c.shape).filterId := by
  rw [filterId, dispatch_sample c]
  rfl

theorem filterId_bare (hw : c.cmd ∈ bareWords) (hn : c.numParams = 0) :
    c.filterId = (sample c.cmd ([], 0)).filterId := by
  rw [filterId, dispatch_bare hw hn]
  rfl

theorem filterId_sample_isSome :
    (∀ p ∈ shapes, ∀ x ∈ p.2, (sample p.1 x).filterId.isSome) ∧
      ∀ w ∈ bareWords, (sample w ([], 0)).filterId.isSome := by
  decide +kernel

/-- With the same word and the same options, different numbers of parameters give different
filters. -/
theorem filterId_sample_inj :
    (∀ p ∈ shapes, ∀ x ∈ p.2, ∀ y ∈ p.2, x.1 = y.1 →
      (sample p.1 x).filterId = (sample p.1 y).filterId → x.2 = y.2) ∧
    ∀ p ∈ shapes, p.1 ∈ bareWords → ∀ x ∈ p.2,
      (sample p.1 x).filterId ≠ (sample p.1 ([], 0)).filterId := by
  decide +kernel

theorem shapes_unique : ∀ p ∈ shapes, ∀ q ∈ shapes, p.1 = q.1 → p.2 = q.2 := by
  decide +kernel

theorem numParams_le_two : ∀ p ∈ shapes, ∀ x ∈ p.2, x.2 ≤ 2 := by
  decide +kernel

theorem copied_sample_le :
    (∀ p ∈ shapes, ∀ x ∈ p.2, ∀ b ∈ (sample p.1 x).dispatch.2, b.copied ≤ x.2) ∧
      ∀ w ∈ bareWords, ∀ b ∈ (sample w ([], 0)).dispatch.2, b.copied ≤ 0 := by
  decide +kernel

theorem filterId_isSome {a : Assignment} (h : c.dispatch = (a, some b)) : c.filterId.isSome := by
  rcases dispatch_shape h with ⟨l, hl, hx⟩ | ⟨hw, hn⟩
  · rw [filterId_sample]
    exact filterId_sample_isSome.1 _ hl _ hx
  · rw [filterId_bare hw hn]
    exact filterId_sample_isSome.2 _ hw

theorem numParams_le {a : Assignment} (h : c.dispatch = (a, some b)) : c.numParams ≤ 2 := by
  rcases dispatch_shape h with ⟨l, hl, hx⟩ | ⟨hw, hn⟩
  · exact numParams_le_two _ hl _ hx
  · omega

theorem copied_le {a : Assignment} (h : c.dispatch = (a, some b)) : b.copied ≤ c.numParams := by
  have hb : b ∈ c.dispatch.2 := by simp [h]
  rcases dispatch_shape h with ⟨l, hl, hx⟩ | ⟨hw, hn⟩
  · rw [dispatch_sample] at hb
    exact copied_sample_le.1 _ hl _ hx b hb
  · rw [dispatch_bare hw hn] at hb
    rw [hn]
    exact copied_sample_le.2 _ hw b hb

/-- Accepted commands of one word and one option form with the same filter have the same
number of parameters. -/
theorem numParams_eq_of_filterId {c c' : Command} {a a' : Assignment} {b b' : Branch}
    (h : c.dispatch = (a, some b)) (h' : c'.dispatch = (a', some b')) (hcmd : c.cmd = c'.cmd)
    (hoption : c.option = c'.option) (hfilter : c.filterId = c'.filterId) :
    c.numParams = c'.numParams := by
  have hshape : c.shape.1 = c'.shape.1 := hoption
  rcases dispatch_shape h with ⟨l, hl, hx⟩ | ⟨hw, hn⟩ <;>
    rcases dispatch_shape h' with ⟨l', hl', hx'⟩ | ⟨hw', hn'⟩
  · rw [← hcmd] at hl'
    obtain rfl := shapes_unique _ hl _ hl' rfl
    rw [filterId_sample c, filterId_sample c', ← hcmd] at hfilter
    exact filterId_sample_inj.1 _ hl _ hx _ hx' hshape hfilter
  · rw [filterId_sample c, filterId_bare hw' hn', ← hcmd] at hfilter
    rw [← hcmd] at hw'
    exact absurd hfilter (filterId_sample_inj.2 _ hl hw' _ hx)
  · rw [filterId_sample c', filterId_bare hw hn, hcmd] at hfilter
    rw [hcmd] at hw
    exact absurd hfilter.symm (filterId_sample_inj.2 _ hl' hw _ hx')
  · rw [hn, hn']

end Command

/-! ### The grammar -/

/-- A line of the grammar: the word, the options, the number of strings where it matters, and
the retrieval type. -/
structure Rule where
  cmd : CString
  option : List Char
  numStrings : Option ℕ
  retrievalType : RetrievalType

def grammar : List Rule :=
  [⟨view, ['b'], none, .browseBooks⟩, ⟨view, ['b', 'a'], none, .browseBooks⟩,
    ⟨view, ['b', 's'], none, .browseBooks⟩, ⟨view, ['f'], none, .browseUsers⟩,
    ⟨view, ['f', 'b'], none, .browseBooks⟩, ⟨view, ['f', 'f'], none, .browseUsers⟩,
    ⟨add, ['b'], none, .addBook⟩, ⟨add, ['d'], none, .addBookDesp⟩, ⟨add, ['t'], none, .addTag⟩,
    ⟨add, ['c'], none, .addComment⟩, ⟨add, ['f'], none, .addFriend⟩,
    ⟨rm, ['b'], none, .rmBook⟩, ⟨rm, ['t'], none, .rmTag⟩, ⟨rm, ['f'], none, .rmFriend⟩,
    ⟨search, ['b'], none, .browseBooks⟩, ⟨search, ['b', 't'], none, .browseBooks⟩,
    ⟨search, ['f'], none, .browseUsers⟩,
    ⟨whatsup, [], none, .browseActivities⟩, ⟨whatsup, ['f'], none, .browseActivities⟩,
    ⟨whatsup, ['m'], none, .browseActivities⟩,
    ⟨wow, [], some 1, .wowBook⟩, ⟨wow, [], some 0, .browseBooks⟩,
    ⟨wow, ['f'], none, .browseBooks⟩, ⟨wow, ['b'], none, .browseBooks⟩,
    ⟨buy, [], some 1, .buyBook⟩, ⟨buy, [], some 0, .browseBooks⟩,
    ⟨buy, ['f'], none, .browseBooks⟩, ⟨buy, ['b'], none, .browseBooks⟩,
    ⟨msg, [], some 0, .browseMsgs⟩, ⟨msg, ['s'], none, .sendMsg⟩, ⟨msg, ['f'], none, .browseMsgs⟩]

def Rule.Matches (rule : Rule) (c : Command) : Prop :=
  c.cmd = rule.cmd ∧ c.option = word rule.option ∧ ∀ n ∈ rule.numStrings, c.numParams = n

/-- Whose activities the three forms of `whatsup` list. -/
def whatsupFilters : List (List UInt8 × ℕ × UInt32) :=
  [([], 0, filterByUserSelf ||| filterByUserFriendly), (word ['m'], 0, filterByUserSelf),
    (word ['f'], 1, filterByUserName ||| filterByUserFriendly)]

/-- The request has the retrieval type and, for `whatsup`, the filter of the command, and its
fields hold the first and the second parameter. -/
structure ClientRequest.Carries (r : ClientRequest) (c : Command) : Prop where
  retrievalType : ∀ rule ∈ grammar, rule.Matches c → r.retrievalType = rule.retrievalType.code
  filterId : c.cmd = whatsup → ∀ x ∈ whatsupFilters, c.shape = (x.1, x.2.1) → r.filterId = x.2.2
  object : ∀ s, c.params[0]? = some s → r.objectStr.read = some s
  attached : ∀ s, c.params[1]? = some s → r.attachedStr.read = some s

/-- The call comes back, and if it accepts the command the request carries it. -/
def Command.Determines (c : Command) (r : ClientRequest) : Prop :=
  ∃ status r', createRequest (some c) r = some (status, r') ∧ (status = .ok → r'.Carries c)

/-- A parameter that is copied fits its field, and one that is not is in the field already. -/
def ReadyFor {n : ℕ} (f : Field n) (copies : Prop) (s : CString) : Prop :=
  (copies → s.strlen < n) ∧ (¬ copies → f.read = some s)

/-- The command is not accepted, or: the request has the retrieval type of the command before
the call, the command is not `whatsup -m`, and the fields are ready for the parameters. -/
def Command.Meets (c : Command) (r : ClientRequest) : Prop :=
  ∀ b, c.dispatch.2 = some b →
    (∀ rule ∈ grammar, rule.Matches c → r.retrievalType = rule.retrievalType.code) ∧
    ¬ (c.cmd = whatsup ∧ c.option = word ['m']) ∧
    (∀ s, c.params[0]? = some s → ReadyFor r.objectStr (0 < b.copied) s) ∧
    ∀ s, c.params[1]? = some s → ReadyFor r.attachedStr (1 < b.copied) s

/-! ### Composing -/

/-- After the copy of a parameter, or without it, the field holds the parameter exactly if it
was ready. -/
theorem copyParam_holds {n : ℕ} {f : Field n} {copies : Prop} [Decidable copies]
    {param : Option CString} (hparam : copies → param.isSome) :
    (∃ g, copyParam f copies param = some g ∧ ∀ s, param = some s → g.read = some s) ↔
      ∀ s, param = some s → ReadyFor f copies s := by
  by_cases hc : copies
  · obtain ⟨s, rfl⟩ := Option.isSome_iff_exists.mp (hparam hc)
    rw [copyParam, if_pos hc, Option.bind_some]
    constructor
    · rintro ⟨g, hg, -⟩ s' ⟨⟩
      refine ⟨fun _ => ?_, fun hn => absurd hc hn⟩
      rw [← Field.strcpy_isSome (f := f), hg]
      rfl
    · intro h
      obtain ⟨g, hg⟩ := Option.isSome_iff_exists.mp (Field.strcpy_isSome.mpr ((h s rfl).1 hc))
      refine ⟨g, hg, ?_⟩
      rintro s' ⟨⟩
      exact Field.read_strcpy hg
  · rw [copyParam, if_neg hc]
    constructor
    · rintro ⟨g, ⟨⟩, hg⟩ s hs
      exact ⟨fun h => absurd h hc, fun _ => hg s hs⟩
    · intro h
      exact ⟨f, rfl, fun s hs => (h s hs).2 hc⟩

section Accepted

variable {c : Command} {a : Assignment} {b : Branch} {r r' : ClientRequest}

theorem createRequest_of_dispatch (h : c.dispatch = (a, some b)) :
    createRequest (some c) r =
      (copyParam r.objectStr (0 < b.copied) c.params[0]?).bind fun objectStr =>
        (copyParam r.attachedStr (1 < b.copied) c.params[1]?).bind fun attachedStr =>
          some (.ok, { (r.assign a).assign b.assigned with
            objectStr := objectStr, attachedStr := attachedStr }) := by
  rw [createRequest]
  simp only [h, ClientRequest.copy]
  cases h₀ : copyParam r.objectStr (0 < b.copied) c.params[0]? with
  | none =>
    simp [ClientRequest.assign, h₀]
  | some objectStr =>
    cases h₁ : copyParam r.attachedStr (1 < b.copied) c.params[1]? with
    | none => simp [ClientRequest.assign, h₀, h₁]
    | some attachedStr => simp [ClientRequest.assign, h₀, h₁]

theorem assign_filterId {f : UInt32} (h : c.dispatch = (a, some b)) (hf : c.filterId = some f) :
    ((r.assign a).assign b.assigned).filterId = f := by
  rw [Command.filterId, h] at hf
  change b.assigned.filterId.getD (a.filterId.getD r.filterId) = f
  change b.assigned.filterId.or a.filterId = some f at hf
  cases hb : b.assigned.filterId with
  | none =>
    rw [hb, Option.none_or] at hf
    rw [hf]
    rfl
  | some f' =>
    rw [hb, Option.some_or] at hf
    exact Option.some.inj hf

theorem whatsup_filterId : ∀ x ∈ whatsupFilters,
    (Command.sample whatsup (x.1, x.2.1)).filterId = some x.2.2 ↔ x.1 ≠ word ['m'] := by
  decide +kernel

theorem whatsup_numParams (h : c.dispatch = (a, some b)) (hw : c.cmd = whatsup)
    (hm : c.option = word ['m']) : c.shape = (word ['m'], 0) := by
  have hshapes : ∀ p ∈ Command.shapes, p.1 = whatsup → ∀ x ∈ p.2, x.1 ≠ word ['m'] := by
    decide +kernel
  rcases Command.dispatch_shape h with ⟨l, hl, hx⟩ | ⟨-, hn⟩
  · exact absurd hm (hshapes _ hl hw _ hx)
  · rw [Command.shape, hm, hn]

theorem determines_of_dispatch (h : c.dispatch = (a, some b)) : c.Determines r ↔ c.Meets r := by
  obtain ⟨f, hf⟩ := Option.isSome_iff_exists.mp (Command.filterId_isSome h)
  have hparams := Command.copied_le h
  have hsome : ∀ i < b.copied, (c.params[i]?).isSome := by
    intro i hi
    exact Option.isSome_of_mem (List.getElem?_eq_getElem (Nat.lt_of_lt_of_le hi hparams))
  have hobject : (∃ g, copyParam r.objectStr (0 < b.copied) c.params[0]? = some g ∧
      ∀ s, c.params[0]? = some s → g.read = some s) ↔
      ∀ s, c.params[0]? = some s → ReadyFor r.objectStr (0 < b.copied) s :=
    copyParam_holds (hsome 0)
  have hattached : (∃ g, copyParam r.attachedStr (1 < b.copied) c.params[1]? = some g ∧
      ∀ s, c.params[1]? = some s → g.read = some s) ↔
      ∀ s, c.params[1]? = some s → ReadyFor r.attachedStr (1 < b.copied) s :=
    copyParam_holds (hsome 1)
  constructor
  · rintro ⟨status, r', hcall, hcarries⟩ b' hb'
    rw [h] at hb'
    cases hb'
    rw [createRequest_of_dispatch h] at hcall
    obtain ⟨objectStr, ho, hcall⟩ := Option.bind_eq_some_iff.mp hcall
    obtain ⟨attachedStr, ha, hcall⟩ := Option.bind_eq_some_iff.mp hcall
    cases hcall
    obtain ⟨htype, hfilter, hread₀, hread₁⟩ := hcarries rfl
    refine ⟨htype, ?_, hobject.mp ⟨objectStr, ho, hread₀⟩, hattached.mp ⟨attachedStr, ha, hread₁⟩⟩
    rintro ⟨hw, hm⟩
    have hshape := whatsup_numParams h hw hm
    have hself := hfilter hw (word ['m'], 0, filterByUserSelf) (by decide) hshape
    change ((r.assign a).assign b.assigned).filterId = filterByUserSelf at hself
    rw [assign_filterId h hf] at hself
    rw [Command.filterId_sample, hw, hshape, hself] at hf
    exact (whatsup_filterId (word ['m'], 0, filterByUserSelf) (by decide)).mp hf rfl
  · intro hmeets
    obtain ⟨htype, hm, hready₀, hready₁⟩ := hmeets b (by rw [h])
    obtain ⟨objectStr, ho, hread₀⟩ := hobject.mpr hready₀
    obtain ⟨attachedStr, ha, hread₁⟩ := hattached.mpr hready₁
    refine ⟨.ok, _, by rw [createRequest_of_dispatch h, ho, ha]; rfl, fun _ => ?_⟩
    refine ⟨htype, ?_, hread₀, hread₁⟩
    intro hw x hx hshape
    have hoption : x.1 ≠ word ['m'] := by
      intro heq
      exact hm ⟨hw, by rw [← heq]; exact congrArg Prod.fst hshape⟩
    have hsample := (whatsup_filterId x hx).mpr hoption
    rw [← hw, ← hshape, ← Command.filterId_sample] at hsample
    exact assign_filterId h hsample

theorem filterId_of_createRequest (h : c.dispatch = (a, some b))
    (hcall : createRequest (some c) r = some (.ok, r')) : c.filterId = some r'.filterId := by
  obtain ⟨f, hf⟩ := Option.isSome_iff_exists.mp (Command.filterId_isSome h)
  rw [createRequest_of_dispatch h] at hcall
  obtain ⟨objectStr, -, hcall⟩ := Option.bind_eq_some_iff.mp hcall
  obtain ⟨attachedStr, -, hcall⟩ := Option.bind_eq_some_iff.mp hcall
  cases hcall
  rw [hf, ← assign_filterId (r := r) h hf]

end Accepted

theorem exists_dispatch {c : Command} {r r' : ClientRequest}
    (hcall : createRequest (some c) r = some (.ok, r')) : ∃ a b, c.dispatch = (a, some b) := by
  rw [createRequest] at hcall
  split at hcall
  · cases hcall
  · exact ⟨_, _, by assumption⟩

/-- One request carries two commands of one word and one option form only with the same
parameters. -/
theorem params_eq_of_carries {c c' : Command} {q q' r : ClientRequest} (hcmd : c.cmd = c'.cmd)
    (hoption : c.option = c'.option) (hcall : createRequest (some c) q = some (.ok, r))
    (hcall' : createRequest (some c') q' = some (.ok, r)) (hc : r.Carries c) (hc' : r.Carries c') :
    c.params = c'.params := by
  obtain ⟨a, b, h⟩ := exists_dispatch hcall
  obtain ⟨a', b', h'⟩ := exists_dispatch hcall'
  have hfilter : c.filterId = c'.filterId := by
    rw [filterId_of_createRequest h hcall, filterId_of_createRequest h' hcall']
  have hnum : c.params.length = c'.params.length :=
    Command.numParams_eq_of_filterId h h' hcmd hoption hfilter
  have htwo : c.params.length ≤ 2 := Command.numParams_le h
  apply List.ext_getElem hnum
  intro i hi hi'
  have hget := List.getElem?_eq_getElem hi
  have hget' := List.getElem?_eq_getElem hi'
  obtain rfl | rfl : i = 0 ∨ i = 1 := by omega
  · exact Option.some.inj ((hc.object _ hget).symm.trans (hc'.object _ hget'))
  · exact Option.some.inj ((hc.attached _ hget).symm.trans (hc'.attached _ hget'))

/-- A call makes the request carry its command exactly if the command is rejected, or the
request has the retrieval type before the call, the command is not `whatsup -m`, and the fields
are ready for the parameters; requests that carry their commands determine the parameters. -/
theorem createRequest_determines (c : Command) (r : ClientRequest) :
    (c.Determines r ↔ c.Meets r) ∧
      ∀ c', c.cmd = c'.cmd → c.option = c'.option → c.Determines r → c'.Determines r →
        ∀ r', createRequest (some c) r = some (.ok, r') →
          createRequest (some c') r = some (.ok, r') → c.params = c'.params := by
  constructor
  · cases h : c.dispatch with
    | mk a b =>
      cases b with
      | none =>
        apply iff_of_true
        · exact ⟨.invalidParam, r.assign a, by rw [createRequest]; simp only [h],
            fun hok => by cases hok⟩
        · intro b hb
          rw [h] at hb
          cases hb
      | some b => exact determines_of_dispatch h
  · intro c' hcmd hoption hdet hdet' r' hcall hcall'
    obtain ⟨status, q, hq, hcarries⟩ := hdet
    obtain ⟨status', q', hq', hcarries'⟩ := hdet'
    cases hcall.symm.trans hq
    cases hcall'.symm.trans hq'
    exact params_eq_of_carries hcmd hoption hcall hcall' (hcarries rfl) (hcarries' rfl)

def ClientRequest.zeroed : ClientRequest := ⟨0, 0, 0, Field.zeroed _, Field.zeroed _⟩

def title : CString := ⟨word ['D', 'u', 'n', 'e'], by decide⟩

theorem createRequest_determines_example :
    (⟨add, word ['b'], [title]⟩ : Command).Determines
      { ClientRequest.zeroed with retrievalType := RetrievalType.addBook.code } := by
  refine (createRequest_determines _ _).1.mpr ?_
  rintro b ⟨⟩
  refine ⟨?_, by decide, ?_, ?_⟩
  · intro rule hrule hmatch
    have hadd : ∀ rule ∈ grammar, rule.cmd = add → word rule.option = word ['b'] →
        rule.retrievalType = .addBook := by decide
    rw [hadd rule hrule hmatch.1.symm hmatch.2.1.symm]
  · rintro s ⟨⟩
    exact ⟨fun _ => by decide, fun hn => absurd (by decide) hn⟩
  · rintro s ⟨⟩

/-- After `add -b Dune` the retrieval type is still 0; `whatsup -m` and `whatsup` give one
request; and `wow Dune` leaves out the book. -/
theorem createRequest_not_determines :
    ¬ (⟨add, word ['b'], [title]⟩ : Command).Determines .zeroed ∧
    createRequest (some ⟨whatsup, word ['m'], []⟩) .zeroed =
      createRequest (some ⟨whatsup, [], []⟩) .zeroed ∧
    ¬ (⟨wow, [], [title]⟩ : Command).Determines
      { ClientRequest.zeroed with retrievalType := RetrievalType.wowBook.code } := by
  refine ⟨?_, by decide, ?_⟩
  · intro h
    have htype := ((determines_of_dispatch rfl).mp h _ rfl).1 ⟨add, ['b'], none, .addBook⟩
      (by simp [grammar]) ⟨rfl, rfl, by simp⟩
    cases htype
  · intro h
    have hready := ((determines_of_dispatch rfl).mp h _ rfl).2.2.1 title rfl
    exact absurd (hready.2 (by decide)) (by decide)

end MorningProjects.ELibrary
