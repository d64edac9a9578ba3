import Hamachi.Session

namespace Hamachi

/-!
# Stories

In the story of a session every command is one that the user asked for in the
same round: a network is left after a confirmed question only, and deleted
after a second one, which follows a refusal to leave it.  Every dialog answers
what it computes from the polls and the texts that it took.
-/

/-- The polls that a happening took. -/
def Happening.polls : Happening → List Keys
  | .ran _ => []
  | .printed _ => []
  | .chose _ _ polls => polls
  | .filled _ polls _ => polls
  | .asked _ _ polls => polls
  | .told _ polls => polls

/-- The texts that were typed in it. -/
def Happening.typed : Happening → List ImeResult
  | .filled _ _ typed => typed
  | _ => []

/-- What a command printed. -/
def Happening.printed? : Happening → Option (List Byte)
  | .printed output => some output
  | _ => none

/-- A dialog in a story, with the polls and the texts that it took. -/
structure Happening.IsDialog
    (happening : Happening)
    (polls : List Keys)
    (typed : List ImeResult) : Prop where
  polls : happening.polls = polls
  typed : happening.typed = typed
  quiet : happening.argv? = none
  silent : happening.printed? = none

/-- Where it leaves the cursor of the network list. -/
def Happening.cursor? : Happening → Option Int
  | .chose _ choice _ => some choice.1
  | _ => none

/-- The cursor that the last choice left. -/
def cursorOf (story : List Happening) : Int :=
  (story.filterMap Happening.cursor?).getLast?.getD 0

/-- A dialog that follows a story shows what the story has, and what it answers
is computed from the polls and the texts that it took, and from all of them. -/
def Happening.Answers (earlier : List Happening) : Happening → Prop
  | .ran _ => True
  | .printed _ => True
  | .chose names choice polls =>
      (∃ before listing,
          earlier =
              before ++
                [.ran [chars "hamachi", chars "list"], .printed listing] ∧
            names = networkNames listing) ∧
        showNetworkList names.length (cursorOf earlier) polls =
          some (choice, [])
  | .filled entered polls typed =>
      Session.formKeys polls ⟨[], [], 0⟩ (sessionStart polls [] typed) =
        (.ok entered, sessionStart [] [] [])
  | .asked _ answer polls =>
      pollUntil questionKeys false polls = some (answer, [])
  | .told error polls =>
      (∃ before output,
          earlier = before ++ [.printed output] ∧
            Session.errorOf output = some error) ∧
        pollUntil errorDialogKeys .shown polls = some ((), [])

/-- Every dialog of a story answers so. -/
def Answered (story : List Happening) : Prop :=
  ∀ before happening after,
    story = before ++ happening :: after → happening.Answers before

/-- `OK` was selected, and later the cross was pressed. -/
def Confirmed (polls : List Keys) : Prop :=
  ∃ first right middle last,
    polls = first ++ right :: middle ++ [last] ∧
      right.right = true ∧
      (∀ keys ∈ middle, keys.left = true → keys.right = true) ∧
      last.cross = true

/-- The networks were listed, and the user chose. -/
def chosen
    (earlier : List Happening)
    (listing : List Byte)
    (choice : Int × Action)
    (polls : List Keys) : List Happening :=
  earlier ++
    [.ran [chars "hamachi", chars "list"], .printed listing,
      .chose (networkNames listing) choice polls]

/-- `"Do you want to leave %s?"` -/
def leaveQuestion (name : List Byte) : List Byte :=
  chars "Do you want to leave " ++ name ++ chars "?"

/-- `"You are the owner of %s. Delete network?"` -/
def deleteQuestion (name : List Byte) : List Byte :=
  chars "You are the owner of " ++ name ++ chars ". Delete network?"

/-- The command may follow the story. -/
inductive Permitted : List Happening → List (List Byte) → Prop where
  | login :
      Permitted [] [chars "hamachi", chars "login"]
  | list (story : List Happening) :
      Permitted story [chars "hamachi", chars "list"]
  | create
      {earlier : List Happening}
      {listing name secret : List Byte}
      {cursor : Int}
      {polls typing : List Keys}
      {typed : List ImeResult} :
      Permitted
        (chosen earlier listing (cursor, .create) polls ++
          [.filled (some (name, secret)) typing typed])
        [chars "hamachi", chars "create", name, secret]
  | join
      {earlier : List Happening}
      {listing name secret : List Byte}
      {cursor : Int}
      {polls typing : List Keys}
      {typed : List ImeResult} :
      Permitted
        (chosen earlier listing (cursor, .join) polls ++
          [.filled (some (name, secret)) typing typed])
        [chars "hamachi", chars "join", name, secret]
  | leave
      {earlier : List Happening}
      {listing name : List Byte}
      {cursor : Int}
      {polls answering : List Keys} :
      (networkNames listing)[cursor.toNat]? = some name →
      Confirmed answering →
      Permitted
        (chosen earlier listing (cursor, .delete) polls ++
          [.asked (leaveQuestion name) true answering])
        [chars "hamachi", chars "leave", name]
  | delete
      {earlier : List Happening}
      {listing name output : List Byte}
      {cursor : Int}
      {polls answering confirming : List Keys} :
      (networkNames listing)[cursor.toNat]? = some name →
      Confirmed answering →
      Session.Denied (Session.errorOf output) →
      Confirmed confirming →
      Permitted
        (chosen earlier listing (cursor, .delete) polls ++
          [.asked (leaveQuestion name) true answering,
            .ran [chars "hamachi", chars "leave", name], .printed output,
            .asked (deleteQuestion name) true confirming])
        [chars "hamachi", chars "delete", name]

/-- Every command of a story was permitted by what came before it. -/
def Consented (story : List Happening) : Prop :=
  ∀ before argv after,
    story = before ++ .ran argv :: after → Permitted before argv

section Stories

variable {story : List Happening}

/-- What holds at every point of a story holds at every point of a longer one
if it holds at the new end. -/
theorem holds_at_append
    {Holds : List Happening → Happening → Prop}
    {happening : Happening}
    (holds :
      ∀ before other after,
        story = before ++ other :: after → Holds before other)
    (last : Holds story happening)
    {before after : List Happening}
    {other : Happening}
    (isStory : story ++ [happening] = before ++ other :: after) :
    Holds before other := by
  rcases List.eq_nil_or_concat after with rfl | ⟨rest, final, rfl⟩
  · obtain ⟨sameStory, same⟩ := List.append_inj' isStory rfl
    cases same
    rwa [← sameStory]
  · rw [List.concat_eq_append, ← List.cons_append, ← List.append_assoc]
      at isStory
    exact holds before other rest (List.append_inj' isStory rfl).1

theorem consented_nil : Consented [] := by
  intro before argv after isStory
  cases before <;> cases isStory

theorem Consented.append
    {happening : Happening}
    (consented : Consented story)
    (permitted :
      ∀ argv, happening.argv? = some argv → Permitted story argv) :
    Consented (story ++ [happening]) := by
  have holds :
      ∀ before other after, story = before ++ other :: after →
        ∀ argv, other.argv? = some argv → Permitted before argv := by
    intro before other after isStory argv isRun
    cases other with
    | ran other =>
        cases isRun
        exact consented before argv after isStory
    | printed | chose | filled | asked | told =>
        cases isRun
  exact fun before argv after isStory =>
    holds_at_append holds permitted isStory argv rfl

theorem answered_nil : Answered [] := by
  intro before happening after isStory
  cases before <;> cases isStory

theorem Answered.append
    {happening : Happening}
    (answered : Answered story)
    (answers : happening.Answers story) :
    Answered (story ++ [happening]) :=
  fun _ _ _ => holds_at_append answered answers

@[simp] theorem cursorOf_append
    (story : List Happening)
    (happening : Happening) :
    cursorOf (story ++ [happening]) =
      happening.cursor?.getD (cursorOf story) := by
  cases isCursor : happening.cursor? <;>
    simp [cursorOf, isCursor]

theorem cursorOf_chosen
    (earlier : List Happening)
    (listing : List Byte)
    (choice : Int × Action)
    (polls : List Keys) :
    cursorOf (chosen earlier listing choice polls) = choice.1 := by
  rw [chosen, List.append_cons, List.append_cons, cursorOf_append]
  rfl

/-- A dialog takes the polls in front of those that it leaves. -/
theorem pollUntil_takes
    {State Result : Type}
    {handle : State → Keys → Polled State Result}
    {state : State}
    {pads rest : List Keys}
    {result : Result}
    (polled : pollUntil handle state pads = some (result, rest)) :
    ∃ polls,
      pads = polls ++ rest ∧
        pollUntil handle state polls = some (result, []) := by
  induction pads generalizing state with
  | nil =>
      cases polled
  | cons keys pads inductionHypothesis =>
      rw [pollUntil] at polled
      cases handled : handle state keys with
      | goesOn next =>
          rw [handled] at polled
          obtain ⟨polls, taken, same⟩ := inductionHypothesis polled
          refine ⟨keys :: polls, by rw [taken, List.cons_append], ?_⟩
          rw [pollUntil, handled]
          exact same
      | returns answer =>
          rw [handled] at polled
          cases polled
          exact ⟨[keys], rfl, by rw [pollUntil, handled]⟩

/-- More polls in front. -/
theorem Confirmed.cons
    {polls : List Keys}
    (confirmed : Confirmed polls)
    (keys : Keys) :
    Confirmed (keys :: polls) := by
  obtain ⟨first, right, middle, last, rfl, facts⟩ := confirmed
  exact ⟨keys :: first, right, middle, last, rfl, facts⟩

/-- A question whose cursor is on `OK` was confirmed, or the cursor was moved
there first. -/
theorem confirmed_of_polled
    {choice : Bool}
    {polls : List Keys}
    (polled : pollUntil questionKeys choice polls = some (true, [])) :
    Confirmed polls ∨
      (choice = true ∧
        ∃ middle last,
          polls = middle ++ [last] ∧
            (∀ keys ∈ middle, keys.left = true → keys.right = true) ∧
            last.cross = true) := by
  induction polls generalizing choice with
  | nil =>
      cases polled
  | cons keys rest inductionHypothesis =>
      rw [pollUntil, questionKeys] at polled
      by_cases right : keys.right
      · rw [if_pos right] at polled
        rcases inductionHypothesis polled with
          confirmed | ⟨-, middle, last, rfl, between, cross⟩
        · exact .inl (confirmed.cons keys)
        · exact .inl ⟨[], keys, middle, last, rfl, right, between, cross⟩
      rw [if_neg right] at polled
      by_cases left : keys.left
      · rw [if_pos left] at polled
        rcases inductionHypothesis polled with confirmed | ⟨isTrue, -⟩
        · exact .inl (confirmed.cons keys)
        · cases isTrue
      rw [if_neg left] at polled
      by_cases circle : keys.circle
      · rw [if_pos circle] at polled
        cases polled
      rw [if_neg circle] at polled
      by_cases cross : keys.cross
      · rw [if_pos cross] at polled
        cases polled
        exact .inr ⟨rfl, [], keys, rfl, by simp, cross⟩
      · rw [if_neg cross] at polled
        rcases inductionHypothesis polled with
          confirmed | ⟨isTrue, middle, last, rfl, between, last_cross⟩
        · exact .inl (confirmed.cons keys)
        · refine .inr ⟨isTrue, keys :: middle, last, rfl, ?_, last_cross⟩
          intro other member
          rcases List.mem_cons.mp member with rfl | later
          · exact fun isLeft => absurd isLeft left
          · exact between other later

/-- The cursor of a question starts on `Cancel`. -/
theorem confirmed_of_answered
    {polls : List Keys}
    (polled : pollUntil questionKeys false polls = some (true, [])) :
    Confirmed polls := by
  rcases confirmed_of_polled polled with confirmed | ⟨isTrue, -⟩
  · exact confirmed
  · cases isTrue

end Stories

end Hamachi
