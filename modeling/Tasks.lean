import Tasks.Contacts.TreeRuns
import Tasks.Contacts.TreeMenu
import Tasks.Contacts.LinkedList
import Tasks.Contacts.LinkedListRuns
import Tasks.Udp.ClientRuns
import Tasks.Kit.Bytes
import Tasks.Kit.Lines
import Tasks.Kit.Prompt
import Tasks.Kit.OnesComplement
import Tasks.Udp.Headers
import Tasks.Udp.Checksum
import Tasks.Udp.Packet
import Tasks.Udp.Client
import Tasks.Udp.ServerLoop
import Tasks.Udp.Bounds
import Tasks.Udp.RoundTrip
import Tasks.Udp.Replies
import Tasks.Taxi.Driver
import Tasks.Taxi.DriverRuns
import Tasks.Taxi.Cli
import Tasks.Taxi.System
import Tasks.Taxi.Agreement
import Tasks.Taxi.Network
import Tasks.Taxi.Blocking
import Tasks.Taxi.Dispatch
import Tasks.Kit.Cells
import Tasks.PriorityQueue
import Tasks.Kit.Chars
import Tasks.Contacts.ArrayBook
import Tasks.Phonebook.Book
import Tasks.Phonebook.RoundTrip
import Tasks.Kit.Semaphore
import Tasks.Numbers.Sections
import Tasks.Numbers.Exclusion
import Tasks.Numbers.Deadlock
import Tasks.Kit.Pipe
import Tasks.Numbers.Ends
import Tasks.Numbers.Filed
import Tasks.Kit.NamedSemaphore
import Tasks.Numbers.Survival
import Tasks.Chat.SystemV
import Tasks.Numbers.Handover
import Tasks.Chat.Delivery
import Tasks.Chat.Ending
import Tasks.Chat.Posix
import Tasks.Kit.Stream
import Tasks.Tcp.FileTransfer
import Tasks.Tcp.Calculator
import Tasks.Tcp.CalculatorRuns
import Tasks.Kit.FdSet
import Tasks.Tcp.SelectServer
import Tasks.Kernel.CharDevice
import Tasks.Kernel.ProcEntry
import Tasks.Udp.HeaderChecksum
import Tasks.Kit.Strtok
import Tasks.Kit.Strtol
import Tasks.Subnet.Address
import Tasks.Kit.Wiring
import Tasks.Subnet.Packets
import Tasks.Subnet.Validation
import Tasks.Shell.Mode
import Tasks.Shell.Symbolic
import Tasks.Shell.Chmod
import Tasks.Kit.Writes
import Tasks.Phonebook.Save
import Tasks.Variadic
import Tasks.Numbers.MinMax
import Tasks.Kit.Fixed
import Tasks.Tcp.Answers
import Tasks.Tcp.History
import Tasks.Tcp.Hazards
import Tasks.Contacts.Answers
import Tasks.Contacts.TreeEdit
import Tasks.Contacts.Fields
import Tasks.Contacts.ListEdit
import Tasks.Variadic.Menu
import Tasks.Interpreter.Arguments
import Tasks.Interpreter.Session
import Tasks.Interpreter.Lines
import Tasks.Taxi.Commands
import Tasks.Udp.Sniffer
import Tasks.Numbers.Standstill
import Tasks.Numbers.Segment
import Tasks.Subnet.Ranges
import Tasks.Contacts.TreeListing
import Tasks.Taxi.Accounts
import Tasks.Tcp.Service
import Tasks.Shell.Session
import Tasks.Contacts.ListMenu
import Tasks.Interpreter.Programs
import Tasks.Udp.InOrder
import Tasks.Phonebook.Sessions
import Tasks.Chat.Turns
import Tasks.Numbers.Copies
import Tasks.Chat.Standstill
import Tasks.Chat.Standstill
