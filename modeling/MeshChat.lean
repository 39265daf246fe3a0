import MeshChat.Lib.Runs
import MeshChat.Server.Faults
import MeshChat.Server.Binding
import MeshChat.Server.Credentials
import MeshChat.Server.Isolation
import MeshChat.Server.Stale
import MeshChat.Server.Members
import MeshChat.Server.Sigpipe
import MeshChat.Server.Blocking
import MeshChat.Server.Refinement
import MeshChat.Server.Leaving
import MeshChat.Net.EndToEnd
import MeshChat.Net.Receivers
import MeshChat.Net.Canonical
import MeshChat.Chat.Windows
import MeshChat.Chat.Sender
import MeshChat.Client.Pids
import MeshChat.Client.CommandLine
import MeshChat.Client.Layout
import MeshChat.Client.Arguments
import MeshChat.Mesh.Agreement
import MeshChat.Ds.VectorMemory
import MeshChat.Ds.DListHeap
import MeshChat.Ds.HashMapMemory
import MeshChat.Server.WatchSet
import MeshChat.Server.Reuse
import MeshChat.Mesh.Programs
import MeshChat.Mesh.Progress
import MeshChat.Mesh.Voices
import MeshChat.Server.Footprint
import MeshChat.Server.ProcessMemory
