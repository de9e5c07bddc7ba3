import MorningProjects.ELibrary.Progress
import MorningProjects.ELibrary.SessionRun
import MorningProjects.Tree.SearchSet
import MorningProjects.Tree.BstLife
import MorningProjects.ELibrary.Mirror
import MorningProjects.ELibrary.WowBuy
import MorningProjects.ELibrary.Replies
import MorningProjects.ELibrary.Commands
import MorningProjects.Library.Traced
import MorningProjects.ELibrary.Briefs
import MorningProjects.Library.Format
import MorningProjects.ELibrary.SiteHistory
import MorningProjects.ELibrary.Merge
import MorningProjects.ELibrary.UserHistory
import MorningProjects.ELibrary.BookHistory
import MorningProjects.Gopiggy.Apples
import MorningProjects.Gopiggy.Standing
import MorningProjects.Chatty.Echo
import MorningProjects.Chatty.Transfer
import MorningProjects.Library.ShiftInsert
import MorningProjects.Gopiggy.Ranking
import MorningProjects.Gopiggy.Interface
import MorningProjects.Gopiggy.Bonus
import MorningProjects.Tree.RbRun
import MorningProjects.Tree.RbRemoveBalance
import MorningProjects.Tree.AvlRemoveBalance
import MorningProjects.Tree.AvlPath
import MorningProjects.Tree.BstRemove
import MorningProjects.Tree.Signs
import MorningProjects.Hash.Contents
import MorningProjects.LinkedList.EditorRun
import MorningProjects.LinkedList.Run
import MorningProjects.ELibrary.Friends
import MorningProjects.ELibrary.Books
import MorningProjects.ELibrary.Mailbox
import MorningProjects.Pool.Contents
import MorningProjects.Semaphore.Waking
import MorningProjects.ELibrary.Draining
import MorningProjects.ELibrary.Filters
import MorningProjects.ELibrary.Marks
import MorningProjects.ELibrary.FriendsMap
import MorningProjects.Common.Handles
import MorningProjects.ELibrary.Lookup
import MorningProjects.LinkedList.Removal
import MorningProjects.Tree.Sanity
import MorningProjects.Tree.FreshColor
import MorningProjects.Library.HeapLog
import MorningProjects.Pool.Destroy
import MorningProjects.Pool.Bookkeeping
import MorningProjects.Pool.Teardown
import MorningProjects.Pool.Served
import MorningProjects.Library.Words
import MorningProjects.Common.CmdParser
import MorningProjects.Hash.StringKeys
import MorningProjects.Library.While
import MorningProjects.ELibrary.UserSearch
